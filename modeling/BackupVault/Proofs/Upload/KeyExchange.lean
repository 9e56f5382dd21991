import BackupVault.Proofs.Upload.ClientChanges
import BackupVault.Proofs.Upload.SessionFiles

/-!
# The exchange of keys

A session answers a public key with a session key exactly if the client is known under the name
that it gives, and the key can be read and has room for a session key.  Then the client can decrypt
the answer, the record of the client holds both keys, and the session goes on with them.  Otherwise
the session ends with an error, says nothing, and changes nothing.

## Overview

- `Vault.Passes`: what others do to a vault between two steps of a session
- `Session.Presents`: the messages that are answered
- `Session.Exchange`: a session from such a message to the end of the exchange
- `Session.Answered`, `Session.Dismissed`: how an exchange ends
- `Session.keys_exchanged`: the decision, and what a whole session changes
-/

set_option autoImplicit false

namespace BackupVault

open ClientDirectory Session

/-! ## §1 Vaults in the meantime -/

namespace Vault

/-- What a vault may become in the meantime: by steps of any sessions and by connections of the
backup protocol, in any order. -/
inductive Passes (v : Vault) : Vault → Prop where
  | here : Passes v v
  | session {w : Vault} (c : Conversation) (h : Passes v w) : Passes v (c.step w).2
  | backup {w : Vault} (version : UInt8) (label : String) (incoming : Reader) (outgoing : Sink)
      (h : Passes v w) :
      Passes v (w.withStorage (Backup.serve version label incoming outgoing w.storage).storage)
  | around {w : Vault} (entropy : Entropy) (now : Timestamp) (h : Passes v w) :
      Passes v { w with entropy, now }

variable {v w : Vault}

theorem Passes.reachable (h : v.Passes w) (hv : v.Reachable) : w.Reachable := by
  induction h with
  | here => exact hv
  | session c h ih => exact .session c ih
  | backup version label incoming outgoing h ih => exact .backup version label incoming outgoing ih
  | @around w entropy now h ih => exact .around w.clients.records entropy now ih

/-- Who is known stays so under the same name, by induction on what happens. -/
theorem Passes.known (h : v.Passes w) {id : ClientId} {r : ClientRecord}
    (hr : v.clients.find? id = some r) : ∃ r', w.clients.find? id = some r' ∧ r'.name = r.name := by
  induction h with
  | here => exact ⟨r, hr, rfl⟩
  | @session w c h ih =>
    obtain ⟨r', hr', hname⟩ := ih
    rcases c.step_clients w with hsame | ⟨name, -, henrols⟩ | ⟨client, publicKey, -, hrekeys⟩
    · rw [hsame]
      exact ⟨r', hr', hname⟩
    · exact ⟨r', henrols.known hr', hname⟩
    · obtain ⟨r'', hr'', hname'⟩ := hrekeys.known hr'
      exact ⟨r'', hr'', hname'.trans hname⟩
  | backup version label incoming outgoing h ih => exact ih
  | around entropy now h ih => exact ih

end Vault

/-! ## §2 Steps taken apart -/

namespace Conversation

variable {c c' : Conversation} {S : List Move} {s : Move}

/-- Without a step only bytes come in, -/
theorem Walks.of_nil (h : c.Walks [] c') : ∃ r, c' = { c with incoming := r } := by
  generalize hS : ([] : List Move) = S at h
  induction h with
  | here => exact ⟨_, rfl⟩
  | arrives a h ih =>
    obtain ⟨r, rfl⟩ := ih hS
    exact ⟨_, rfl⟩
  | moves v h ih => simp at hS

/-- as they do after the last step. -/
theorem Walks.of_concat (h : c.Walks (S ++ [s]) c') :
    ∃ c₁ r, c.Walks S c₁ ∧ s = c₁.move s.before ∧
      c' = { (c₁.step s.before).1 with incoming := r } := by
  generalize hT : S ++ [s] = T at h
  induction h with
  | here => simp at hT
  | arrives a h ih =>
    obtain ⟨c₁, r, hwalks, hs, rfl⟩ := ih hT
    exact ⟨c₁, _, hwalks, hs, rfl⟩
  | @moves T c' v h ih =>
    obtain ⟨rfl, hlast⟩ := List.append_inj' hT rfl
    obtain rfl := (List.cons.inj hlast).1
    exact ⟨c', _, h, rfl, rfl⟩

/-- A session that is over does nothing more. -/
theorem Walks.of_ended (h : c.Walks S c') {o : Except SessionError Unit} (ho : c.phase = .ended o) :
    c'.phase = .ended o ∧ c'.outgoing = c.outgoing ∧ ∀ s ∈ S, s.after = s.before := by
  induction h with
  | here => exact ⟨ho, rfl, nofun⟩
  | arrives a h ih => exact ih
  | @moves S c' v h ih =>
    obtain ⟨hphase, houtgoing, hS⟩ := ih
    obtain ⟨hstep, -⟩ := step_of_ended (v := v) hphase
    rw [hstep]
    refine ⟨hphase, houtgoing, fun s hs => ?_⟩
    rcases List.mem_append.mp hs with hs | hs
    · exact hS s hs
    · rw [List.mem_singleton.mp hs, move, hstep]

end Conversation

namespace Session

/-- A client is let in exactly if it is known under the name that it gives and its key can be
read. -/
theorem identified_eq_issuing {d : ClientDirectory} {client : ClientId} {name : Name} {der : Bytes}
    {publicKey : PublicKey} :
    identified d client name der = { phase := .issuing client publicKey } ↔
      ∃ record, d.find? client = some record ∧ name.toText = .ok record.name ∧
        PublicKey.ofDer der = .ok publicKey := by
  unfold identified
  constructor
  · intro h
    split at h
    · cases h
    · rename_i record hrecord
      split at h
      · cases h
      · rename_i text htext
        split at h
        · cases h
        · rename_i hname
          rw [ne_eq, Decidable.not_not] at hname
          split at h
          · rename_i key hkey
            cases h
            exact ⟨record, hrecord, hname ▸ htext, hkey⟩
          · cases h
  · rintro ⟨record, hrecord, hname, hkey⟩
    simp only [hrecord, hname, hkey, ne_eq, not_true_eq_false, ↓reduceIte]

/-! ## §3 Exchanges -/

/-- The message presents a public key that can be answered, under a name by which the client is
known. -/
def Presents (d : ClientDirectory) (m : ClientMessage) (publicKey : PublicKey) : Prop :=
  ∃ name der record, m.body = .publicKey name der ∧ d.find? m.sender = some record ∧
    name.toText = .ok record.name ∧ PublicKey.ofDer der = .ok publicKey ∧ 58 ≤ publicKey.size

/-- A message reaches the exchange of keys: after registration, or as the first message if it
presents a public key.  The session hears it, finding any vault at all, and takes two steps more; in
between, others take theirs and bytes come in. -/
structure Exchange (c : Conversation) (m : ClientMessage) (v₀ : Vault) (s s' : Move)
    (c' : Conversation) : Prop where
  reaches : c.phase = .registered ∨ c.phase = .greeting ∧ m.body.code = .publicKey
  heard : ∃ incoming, ClientMessage.decode c.version c.incoming = .ok m incoming
  unlimited : c.outgoing.limit = none
  walks : (c.step v₀).1.Walks [s, s'] c'
  reachable : s.before.Reachable
  passes : s.before.Passes s'.before

/-- The session has answered with a session key. -/
structure Answered (c : Conversation) (m : ClientMessage) (publicKey : PublicKey)
    (key : SessionKey) (encrypted : Bytes) (s' : Move) (c' : Conversation) : Prop where
  /-- The answer is all that was sent, and goes to the client that sent the message. -/
  sent : ∃ b,
    ServerMessage.encode { version := c.version, body := .sessionKey m.sender encrypted } = .ok b ∧
      c'.outgoing.written = c.outgoing.written ++ b
  /-- The pair of the public key decrypts it to the session key. -/
  opens : ∀ keys : KeyPair, keys.publicKey = publicKey → keys.isConsistent = true →
    keys.p.Prime → keys.q.Prime → keys.p ≠ keys.q → keys.decrypt encrypted = .ok key.bytes
  /-- The record of the client has both keys now, and all others are as they were. -/
  recorded : Rekeys m.sender publicKey key s'.before.now s'.before.clients s'.after.clients
  /-- The session goes on with this client and this key, -/
  phase : c'.phase = .receiving m.sender key
  /-- and does so to its end. -/
  uses : ∀ S c'', c'.Walks S c'' → c''.phase.Uses m.sender key

/-- The session has ended with an error, without an answer and without a change. -/
structure Dismissed (c : Conversation) (s' : Move) (c' : Conversation) : Prop where
  ended : ∃ e, c'.phase = .ended (.error e)
  silent : c'.outgoing = c.outgoing
  /-- Randomness may have been used up for a key that was not issued. -/
  unchanged : ∃ entropy, s'.after = { s'.before with entropy }

theorem Answered.not_dismissed {c c' : Conversation} {m : ClientMessage} {publicKey : PublicKey}
    {key : SessionKey} {encrypted : Bytes} {s' : Move}
    (h : Answered c m publicKey key encrypted s' c') : ¬ Dismissed c s' c' := by
  rintro ⟨⟨e, he⟩, -, -⟩
  cases h.phase.symm.trans he

/-! ## §4 How exchanges end -/

variable {c c' : Conversation} {m : ClientMessage} {v₀ : Vault} {s s' : Move}

/-- The message is heard as after registration, and no vault is touched. -/
theorem Exchange.step_eq (h : Exchange c m v₀ s s' c') :
    ∃ incoming, c.step v₀ = ({ c with incoming, phase := (hearKey m).phase }, v₀) := by
  obtain ⟨incoming, hdecode⟩ := h.heard
  have hheard : Conversation.Waits c.phase ∧ Session.hear c.phase m = hearKey m := by
    obtain ⟨sender, version, body⟩ := m
    rcases h.reaches with hp | ⟨hp, hcode⟩ <;> rw [hp]
    · exact ⟨Conversation.waits_registered, rfl⟩
    · refine ⟨Conversation.waits_greeting, ?_⟩
      cases body with
      | publicKey name der => rfl
      | _ => cases hcode
  have hsilent : (hearKey m).reply = none := by
    unfold hearKey
    split <;> rfl
  refine ⟨incoming, ?_⟩
  rw [(Conversation.step_of_waits hheard.1).1, Conversation.hear, hdecode]
  dsimp only
  rw [hheard.2, Conversation.take, hsilent]

/-- Looking the client up sends nothing and leaves the vault as it is. -/
theorem step_identifying {client : ClientId} {name : Name} {der : Bytes}
    (hp : c.phase = .identifying client name der) (v : Vault) :
    c.step v = ({ c with phase := (identified v.clients client name der).phase }, v) := by
  have hsilent : (identified v.clients client name der).reply = none := by
    rcases identified_cases v.clients client name der with ⟨publicKey, h⟩ | ⟨e, h⟩
    · rw [h]
    · rw [h]
      rfl
  have hx : action? c.phase = some (actIdentify client name der) := by
    rw [hp]
    rfl
  rw [(Conversation.step_of_action hx).1, act_identify, Conversation.take, hsilent]

/-- With room for a session key, a client that is known is answered. -/
theorem answered_of_issuing {publicKey : PublicKey} (hp : c.phase = .issuing m.sender publicKey)
    (hlimit : c.outgoing.limit = none) (hbound : publicKey.size ≤ 512) (hroom : 58 ≤ publicKey.size)
    {v : Vault} (hv : v.Reachable) {record : ClientRecord}
    (hrecord : v.clients.find? m.sender = some record) (r : Reader) :
    ∃ key encrypted,
      Answered c m publicKey key encrypted (c.move v) { (c.step v).1 with incoming := r } := by
  obtain ⟨R, hR⟩ := hv.sound
  obtain ⟨key, encrypted, v', hissue, ⟨e, hencrypt⟩, hcipher, -⟩ := actIssue_ok hR hrecord hroom
  obtain ⟨b, hb⟩ := ServerMessage.encode_eq_ok
    (m := { version := c.version, body := .sessionKey m.sender encrypted }) (by
      change 16 + encrypted.size ≤ 67108864
      omega)
  have hx : action? c.phase = some (actIssue m.sender publicKey) := by
    rw [hp]
    rfl
  have hact : Session.act (actIssue m.sender publicKey) v =
      ({ phase := .receiving m.sender key, reply := some (.sessionKey m.sender encrypted) },
        v') := by
    rw [Session.act, hissue]
  have hstep := (Conversation.step_of_action (v := v) hx).1
  have hanswers : Link.Answers c.version (some (.sessionKey m.sender encrypted)) b := hb
  rw [hact] at hstep
  dsimp only at hstep
  rw [Link.take_of_answers hlimit hanswers] at hstep
  -- The record gets the key that was drawn, which is the one that was encrypted.
  have hrecorded : Rekeys m.sender publicKey key v.now v.clients v'.clients := by
    obtain rfl := key_of_issue hissue
    rcases issue_cases m.sender publicKey v with ⟨hshort, -⟩ | ⟨-, ⟨-, hnone⟩ | hrekeys⟩
    · omega
    · cases hrecord.symm.trans hnone
    · rwa [hact] at hrekeys
  rw [Conversation.move, hstep]
  refine ⟨key, encrypted, ⟨b, hb, rfl⟩, ?_, hrecorded, rfl, fun S c'' h => h.uses ⟨rfl, rfl⟩⟩
  rintro keys rfl hconsistent hprime hprime' hne
  exact KeyPair.decrypt_encrypt hconsistent hprime hprime' hne hencrypt

/-- Without room, the session ends. -/
theorem dismissed_of_issuing {client : ClientId} {publicKey : PublicKey}
    (hp : c.phase = .issuing client publicKey) (hshort : publicKey.size < 58) (v : Vault)
    (r : Reader) : Dismissed c (c.move v) { (c.step v).1 with incoming := r } := by
  have hx : action? c.phase = some (actIssue client publicKey) := by
    rw [hp]
    rfl
  have hstep := (Conversation.step_of_action (v := v) hx).1
  rcases issue_cases client publicKey v with ⟨-, e, entropy, hfail⟩ | ⟨hroom, -⟩
  · rw [hfail] at hstep
    rw [Conversation.move, hstep]
    exact ⟨⟨e, rfl⟩, rfl, entropy, rfl⟩
  · omega

/-- A session that is over before the last step was dismissed. -/
theorem dismissed_of_ended {e : SessionError} (he : c.phase = .ended (.error e)) (v : Vault)
    (r : Reader) : Dismissed c (c.move v) { (c.step v).1 with incoming := r } := by
  obtain ⟨hstep, -⟩ := Conversation.step_of_ended (v := v) he
  rw [Conversation.move, hstep]
  exact ⟨⟨e, he⟩, rfl, v.entropy, rfl⟩

/-- An outcome is the same for conversations that have written the same. -/
theorem Answered.of_eq {c₁ : Conversation} {publicKey : PublicKey} {key : SessionKey}
    {encrypted : Bytes} (h : Answered c₁ m publicKey key encrypted s' c')
    (hversion : c₁.version = c.version) (houtgoing : c₁.outgoing = c.outgoing) :
    Answered c m publicKey key encrypted s' c' :=
  ⟨hversion ▸ houtgoing ▸ h.sent, h.opens, h.recorded, h.phase, h.uses⟩

theorem Dismissed.of_eq {c₁ : Conversation} (h : Dismissed c₁ s' c')
    (houtgoing : c₁.outgoing = c.outgoing) : Dismissed c s' c' :=
  ⟨h.ended, h.silent.trans houtgoing, h.unchanged⟩

/-- A client that presented a public key is looked up, and then answered or dismissed. -/
theorem outcome_of_identifying {name : Name} {der : Bytes}
    (hp : c.phase = .identifying m.sender name der) (hbody : m.body = .publicKey name der)
    (hlimit : c.outgoing.limit = none) (h : c.Walks [s, s'] c') (hv : s.before.Reachable)
    (hpasses : s.before.Passes s'.before) : s.after = s.before ∧
      ((∃ publicKey key encrypted, Presents s.before.clients m publicKey ∧
          Answered c m publicKey key encrypted s' c') ∨
        (¬ ∃ publicKey, Presents s.before.clients m publicKey) ∧ Dismissed c s' c') := by
  obtain ⟨c₂, r₂, hlooked, hs', rfl⟩ := h.of_concat (S := [s])
  obtain ⟨c₁, r₁, hheard, hs, hc₂⟩ := hlooked.of_concat (S := [])
  obtain ⟨r₀, rfl⟩ := hheard.of_nil
  have hlook := step_identifying (c := { c with incoming := r₀ }) hp s.before
  have hsame : s.after = s.before := by
    rw [hs, Conversation.move, hlook]
  have hphase : c₂.phase = (identified s.before.clients m.sender name der).phase := by
    rw [hc₂, hlook]
  have houtgoing : c₂.outgoing = c.outgoing := by rw [hc₂, hlook]
  have hversion : c₂.version = c.version := by rw [hc₂, hlook]
  refine ⟨hsame, ?_⟩
  rw [hs']
  rcases identified_cases s.before.clients m.sender name der with ⟨publicKey, hturn⟩ | ⟨e, hturn⟩
  · rw [hturn] at hphase
    obtain ⟨record, hrecord, hname, hkey⟩ := identified_eq_issuing.mp hturn
    by_cases hroom : 58 ≤ publicKey.size
    · obtain ⟨record', hrecord', -⟩ := hpasses.known hrecord
      obtain ⟨key, encrypted, hanswered⟩ := answered_of_issuing hphase (houtgoing ▸ hlimit)
        (PublicKey.size_le (PublicKey.isAcceptable_of_ofDer hkey)) hroom (hpasses.reachable hv)
        hrecord' r₂
      exact .inl ⟨publicKey, key, encrypted,
        ⟨name, der, record, hbody, hrecord, hname, hkey, hroom⟩,
        hanswered.of_eq hversion houtgoing⟩
    · refine .inr ⟨?_, (dismissed_of_issuing hphase (Nat.lt_of_not_le hroom) _ r₂).of_eq houtgoing⟩
      rintro ⟨publicKey', name', der', -, hbody', -, -, hkey', hroom'⟩
      cases hbody.symm.trans hbody'
      cases hkey.symm.trans hkey'
      exact hroom hroom'
  · rw [hturn] at hphase
    refine .inr ⟨?_, (dismissed_of_ended hphase _ r₂).of_eq houtgoing⟩
    rintro ⟨publicKey, name', der', record, hbody', hrecord, hname, hkey, -⟩
    cases hbody.symm.trans hbody'
    cases (identified_eq_issuing.mpr ⟨record, hrecord, hname, hkey⟩).symm.trans hturn

/-- The outcome of an exchange. -/
theorem Exchange.outcome (h : Exchange c m v₀ s s' c') : s.after = s.before ∧
    ((∃ publicKey key encrypted, Presents s.before.clients m publicKey ∧
        Answered c m publicKey key encrypted s' c') ∨
      (¬ ∃ publicKey, Presents s.before.clients m publicKey) ∧ Dismissed c s' c') := by
  obtain ⟨incoming, hstep⟩ := h.step_eq
  have hwalks := h.walks
  rw [hstep] at hwalks
  by_cases hkey : ∃ name der, m.body = .publicKey name der
  · obtain ⟨name, der, hbody⟩ := hkey
    have hphase : (hearKey m).phase = .identifying m.sender name der := by
      rw [hearKey, hbody]
    obtain ⟨hsame, houtcome⟩ := outcome_of_identifying
      (c := { c with incoming, phase := (hearKey m).phase }) hphase hbody h.unlimited hwalks
      h.reachable h.passes
    refine ⟨hsame, ?_⟩
    rcases houtcome with ⟨publicKey, key, encrypted, hpresents, hanswered⟩ | ⟨hnot, hdismissed⟩
    · exact .inl ⟨publicKey, key, encrypted, hpresents, hanswered.of_eq rfl rfl⟩
    · exact .inr ⟨hnot, hdismissed.of_eq rfl⟩
  -- Anything else than a public key ends the session at once.
  · have hrefused : ∃ e, (hearKey m).phase = .ended (.error e) := by
      unfold hearKey
      split
      · rename_i name der hbody
        exact absurd ⟨name, der, hbody⟩ hkey
      · exact ⟨_, rfl⟩
    obtain ⟨e, he⟩ := hrefused
    obtain ⟨hended, hsilent, hsame⟩ := hwalks.of_ended he
    refine ⟨hsame s List.mem_cons_self, .inr ⟨?_, ⟨e, hended⟩, hsilent, s'.before.entropy, ?_⟩⟩
    · rintro ⟨publicKey, name, der, record, hbody, -⟩
      exact hkey ⟨name, der, hbody⟩
    · exact hsame s' (List.mem_cons_of_mem _ List.mem_cons_self)

/-- **The exchange of keys.**  A session answers a message with a session key exactly if the message
presents a public key that can be answered, and otherwise dismisses the client; until then it leaves
every vault as it found it.  In its whole course, whatever others do, it makes no changes among the
clients but to register one and to give keys to the one that presented a public key. -/
theorem keys_exchanged :
    (∀ c m v₀ s s' c', Exchange c m v₀ s s' c' →
      (c.step v₀).2 = v₀ ∧ s.after = s.before ∧
        ((∃ publicKey, Presents s.before.clients m publicKey) ↔
          ∃ publicKey key encrypted, Presents s.before.clients m publicKey ∧
            Answered c m publicKey key encrypted s' c') ∧
        ((¬ ∃ publicKey, Presents s.before.clients m publicKey) ↔ Dismissed c s' c')) ∧
    ∀ version incoming outgoing S c,
      Conversation.Walks { version, incoming, outgoing } S c →
        Discreet S ∧ ∀ v v', Uninterrupted v S v' → Changed (log S) v.clients v'.clients := by
  constructor
  · intro c m v₀ s s' c' h
    obtain ⟨incoming, hstep⟩ := h.step_eq
    obtain ⟨hsame, houtcome⟩ := h.outcome
    refine ⟨by rw [hstep], hsame, ?_, ?_⟩
    · refine ⟨fun hpresents => ?_, fun ⟨publicKey, _, _, hpresents, _⟩ => ⟨publicKey, hpresents⟩⟩
      rcases houtcome with hanswered | ⟨hnot, -⟩
      · exact hanswered
      · exact absurd hpresents hnot
    · rcases houtcome with ⟨publicKey, key, encrypted, hpresents, hanswered⟩ | ⟨hnot, hdismissed⟩
      · exact iff_of_false (not_not_intro ⟨publicKey, hpresents⟩) hanswered.not_dismissed
      · exact iff_of_true hnot hdismissed
  · intro version incoming outgoing S c h
    have hdiscreet := discreet_of_walks h
    exact ⟨hdiscreet, fun v v' hS => hdiscreet.changed hS⟩

/-- A client that was registered presents its public key, and gets a session key. -/
theorem keys_exchanged_alice : ∃ c m s s' c' publicKey key encrypted,
    Exchange c m Vault.staffed s s' c' ∧ Answered c m publicKey key encrypted s' c' ∧
      Discreet [c.move Vault.staffed, s, s'] := by
  obtain ⟨name, -, hname⟩ := Name.ofText_eq_ok (s := "alice") (by decide) (by decide)
  obtain ⟨keys, hkeys⟩ : ∃ keys : KeyPair, keys.Works := ⟨KeyPair.simple, KeyPair.simple_works⟩
  have hder := PublicKey.size_toDer_le (PublicKey.isAcceptable_of_ofDer hkeys.accepted)
  let m : ClientMessage :=
    { sender := ClientRecord.alice.id, version := 3, body := .publicKey name keys.publicDer }
  obtain ⟨b, hb⟩ := ClientMessage.encode_eq_ok (m := m) (by
    change 255 + keys.publicKey.toDer.size ≤ 67108864
    omega)
  let c : Conversation := { version := 3, incoming := .ofBytes b }
  obtain ⟨r, hdecode, -⟩ := (ClientMessage.takes_of_encode hb).whole c.incoming ByteArray.empty
    (by rw [ByteArray.append_empty]; exact Reader.unread_ofBytes b)
  -- Nobody comes between the three steps.
  let c₁ := (c.step Vault.staffed).1
  let c₂ := (c₁.step Vault.staffed).1
  have hwalks : c₁.Walks [c₁.move Vault.staffed, c₂.move Vault.staffed]
      (c₂.step Vault.staffed).1 :=
    (Conversation.Walks.here.moves Vault.staffed).moves Vault.staffed
  have hwhole : c.Walks [c.move Vault.staffed, c₁.move Vault.staffed, c₂.move Vault.staffed]
      (c₂.step Vault.staffed).1 :=
    ((Conversation.Walks.here.moves Vault.staffed).moves Vault.staffed).moves Vault.staffed
  have hexchange : Exchange c m Vault.staffed _ _ _ :=
    { reaches := .inr ⟨rfl, rfl⟩
      heard := ⟨r, hdecode⟩
      unlimited := rfl
      walks := hwalks
      reachable := .opened Vault.staffed_sound rfl
      passes := .here }
  have hpresents : Presents Vault.staffed.clients m keys.publicKey :=
    ⟨name, keys.publicDer, ClientRecord.alice, rfl, rfl, hname, hkeys.accepted, hkeys.room⟩
  obtain ⟨publicKey, key, encrypted, -, hanswered⟩ :=
    (keys_exchanged.1 _ _ _ _ _ _ hexchange).2.2.1.mp ⟨_, hpresents⟩
  exact ⟨c, m, _, _, _, publicKey, key, encrypted, hexchange, hanswered,
    (keys_exchanged.2 _ _ _ _ _ hwhole).1⟩

end Session

end BackupVault
