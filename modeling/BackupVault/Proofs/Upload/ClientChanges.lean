import BackupVault.Proofs.Upload.Calls
import BackupVault.Proofs.Upload.Paperwork
import BackupVault.Proofs.Upload.SessionConduct

/-!
# What sessions change in the directory of clients

A session changes the directory of clients at two places only: where it registers a client, and
where it issues a session key.  The first adds the record of a new client, and takes it back if it
cannot be saved; the second puts keys and a time into the record of a client that is there.  In its
whole course a session makes at most one change of each kind, whatever others do to the vault in
the meantime.

## Overview

- `ClientDirectory.Enrols`, `ClientDirectory.Rekeys`: the two kinds of change
- `Conversation.step_clients`: what a step changes
- `Conversation.Walks`: a session that goes on among others
- `Session.Discreet`, `Session.discreet_of_walks`: the changes of a whole session
- `Session.Discreet.changed`: what they come to, if nobody else changes anything
-/

set_option autoImplicit false

namespace BackupVault

/-! ## §1 Two kinds of change -/

namespace ClientDirectory

/-- Between the two directories, one record was added: that of a new client with this name. -/
def Enrols (name : String) (d d' : ClientDirectory) : Prop :=
  ∃ r : ClientRecord, r.name = name ∧ r.publicKey = none ∧ r.sessionKey = none ∧ Fresh d r ∧
    d'.records = d.records ++ [r]

/-- Between the two directories, the client got keys and was seen; the other records stayed as they
were. -/
def Rekeys (client : ClientId) (publicKey : PublicKey) (key : SessionKey) (now : Timestamp)
    (d d' : ClientDirectory) : Prop :=
  ∃ r, d.find? client = some r ∧ d'.find? client = some (withKeys r publicKey key now) ∧
    ∀ id, id ≠ client → d'.find? id = d.find? id

variable {d d' : ClientDirectory} {client : ClientId} {publicKey : PublicKey} {key : SessionKey}
  {now : Timestamp} {r : ClientRecord}

/-- Who is known under a name stays so when a client is added, -/
theorem Enrols.known {name : String} (h : Enrols name d d') (hr : d.find? client = some r) :
    d'.find? client = some r := by
  obtain ⟨new, -, -, -, -, hrecords⟩ := h
  rw [find?] at hr ⊢
  rw [hrecords, List.find?_append, hr, Option.some_or]

/-- and when a client gets keys. -/
theorem Rekeys.known (h : Rekeys client publicKey key now d d') {id : ClientId}
    (hr : d.find? id = some r) : ∃ r', d'.find? id = some r' ∧ r'.name = r.name := by
  obtain ⟨old, hold, hnew, hothers⟩ := h
  by_cases hid : id = client
  · subst hid
    cases hold.symm.trans hr
    exact ⟨_, hnew, rfl⟩
  · exact ⟨r, (hothers id hid).trans hr, rfl⟩

theorem rekeys_insert (hr : d.find? client = some r) :
    Rekeys client publicKey key now d (d.insert (withKeys r publicKey key now)) := by
  have hid : (withKeys r publicKey key now).id = client := (mem_of_find hr).2
  refine ⟨r, hr, ?_, fun id hne => ?_⟩
  · rw [find_insert_eq, if_pos hid]
  · rw [find_insert_eq, if_neg fun heq => hne (heq.symm.trans hid)]

/-- Registration adds a record, unless it is refused or taken back. -/
theorem directory_register (disk : Disk) (name : String) (candidates : List ClientId)
    (now : Timestamp) (s : ClientStore) :
    (after (register disk name candidates now s)).directory = s.directory ∨
      Enrols name s.directory (after (register disk name candidates now s)).directory := by
  rcases register_cases disk name candidates now s with
    ⟨hrun, -⟩ | ⟨id, r, files, hname, hid, rfl, hsaved⟩
  · rw [hrun]
    exact .inl rfl
  · have hrecord : (Call.register name candidates now).record? s.directory =
        some { id, name, publicKey := none, sessionKey := none, lastSeen := now } := by
      simp only [Call.record?, hname, hid, Bool.false_eq_true, ↓reduceIte, Option.map_some]
    have hfresh := (Call.record_register hrecord).2
    rcases hsaved with ⟨-, hrun⟩ | ⟨e, -, hrun⟩
    · rw [hrun]
      exact .inr ⟨_, rfl, rfl, rfl, hfresh, congrArg records (insert_of_new hfresh.ids)⟩
    -- The record is taken back if it cannot be saved.
    · rw [hrun]
      exact .inl hfresh.erase_insert

/-- The keys of a client that is known are set, even if they cannot be saved. -/
theorem directory_setKeys (disk : Disk) (client : ClientId) (publicKey : PublicKey)
    (key : SessionKey) (now : Timestamp) (s : ClientStore) :
    (s.directory.find? client = none ∧
        (after (setKeys disk client publicKey key now s)).directory = s.directory) ∨
      Rekeys client publicKey key now s.directory
        (after (setKeys disk client publicKey key now s)).directory := by
  rcases setKeys_cases disk client publicKey key now s with
    ⟨hnone, hrun⟩ | ⟨r, files, hr, ⟨-, hrun⟩ | ⟨e, -, hrun⟩⟩
  · rw [hrun]
    exact .inl ⟨hnone, rfl⟩
  · rw [hrun]
    exact .inr (rekeys_insert hr)
  · rw [hrun]
    exact .inr (rekeys_insert hr)

end ClientDirectory

open ClientDirectory Session

/-! ## §2 What a step changes -/

namespace Vault

theorem clients_register (name : String) (v : Vault) :
    (after (Vault.register name v)).clients = v.clients ∨
      Enrols name v.clients (after (Vault.register name v)).clients := by
  obtain ⟨drawn, e, hdraw, -⟩ := candidates_eq maxDraws v
  have hget : (get : Vaulted Vault) { v with entropy := e } =
      .ok { v with entropy := e } { v with entropy := e } := rfl
  unfold Vault.register
  rw [bind_run_ok hdraw, bind_run_ok hget, after_enrolled]
  exact directory_register .sound name drawn v.now _

theorem clients_setKeys (client : ClientId) (publicKey : PublicKey) (key : SessionKey) (v : Vault) :
    (v.clients.find? client = none ∧
        (after (Vault.setKeys client publicKey key v)).clients = v.clients) ∨
      Rekeys client publicKey key v.now v.clients
        (after (Vault.setKeys client publicKey key v)).clients := by
  have hget : (get : Vaulted Vault) v = .ok v v := rfl
  -- Whether the client was found is only told afterwards.
  have hafter : after (Vault.setKeys client publicKey key v) =
      after (enrolled (ClientDirectory.setKeys .sound client publicKey key v.now) v) := by
    unfold Vault.setKeys
    rw [bind_run_ok hget]
    cases hset : enrolled (ClientDirectory.setKeys .sound client publicKey key v.now) v with
    | ok found w =>
      rw [bind_run_ok hset]
      cases found <;> rfl
    | error e w =>
      rw [bind_run_error hset]
      rfl
  rw [hafter, after_enrolled]
  exact directory_setKeys .sound client publicKey key v.now v.clientStore

end Vault

namespace Session

/-- A key is issued only under a public key with room for it: without room only randomness is used
up, and with room the record of the client gets both keys. -/
theorem issue_cases (client : ClientId) (publicKey : PublicKey) (v : Vault) :
    (publicKey.size < 58 ∧ ∃ e entropy,
        act (actIssue client publicKey) v = (.fail e, { v with entropy })) ∨
      (58 ≤ publicKey.size ∧ ((act (actIssue client publicKey) v).2.clients = v.clients ∧
          v.clients.find? client = none ∨
        Rekeys client publicKey (SessionKey.generate v.entropy).1 v.now v.clients
          (act (actIssue client publicKey) v).2.clients)) := by
  have hkey : Vault.draw SessionKey.generate v = .ok (SessionKey.generate v.entropy).1
      { v with entropy := (SessionKey.generate v.entropy).2 } := rfl
  generalize (SessionKey.generate v.entropy).1 = key at hkey ⊢
  generalize (SessionKey.generate v.entropy).2 = e at hkey
  have hdraw : Vault.draw (publicKey.encrypt key.bytes) { v with entropy := e } =
      .ok (publicKey.encryptWith (e.draw Sha1.size).1 key.bytes)
        { v with entropy := (e.draw Sha1.size).2 } := rfl
  have hneeded : key.bytes.size + Oaep.overhead = 58 := by
    rw [key.size_eq]
    rfl
  unfold act actIssue
  rw [bind_run_ok hkey, bind_run_ok hdraw]
  by_cases hroom : 58 ≤ publicKey.size
  · obtain ⟨encrypted, hencrypt, -⟩ :=
      PublicKey.encryptWith_eq_ok (hneeded ▸ hroom) (e.draw Sha1.size).1
    have hclients := Vault.clients_setKeys client publicKey key
      { v with entropy := (e.draw Sha1.size).2 }
    rw [hencrypt]
    dsimp only
    cases hset : Vault.setKeys client publicKey key { v with entropy := (e.draw Sha1.size).2 } with
    | ok _ w =>
      rw [hset] at hclients
      simp only [bind_run_ok hset]
      exact .inr ⟨hroom, hclients.imp_left And.symm⟩
    | error fault w =>
      rw [hset] at hclients
      simp only [bind_run_error hset]
      exact .inr ⟨hroom, hclients.imp_left And.symm⟩
  · have hshort := Nat.lt_of_not_le hroom
    rw [PublicKey.encryptWith_eq_error (hneeded ▸ hshort)]
    exact .inl ⟨hshort, _, _, rfl⟩

end Session

namespace Conversation

/-- A step changes the clients only where the session registers one or issues a key. -/
theorem step_clients (c : Conversation) (v : Vault) :
    (c.step v).2.clients = v.clients ∨
      (∃ name, c.phase = .registering name ∧ Enrols name v.clients (c.step v).2.clients) ∨
        ∃ client publicKey, c.phase = .issuing client publicKey ∧
          Rekeys client publicKey (SessionKey.generate v.entropy).1 v.now v.clients
            (c.step v).2.clients := by
  rcases phase_cases c.phase with ⟨x, hx⟩ | hwaits | ⟨o, ho⟩
  · obtain ⟨hstep, -⟩ := step_of_action (v := v) hx
    rw [hstep]
    dsimp only
    cases hp : c.phase with
    | registering name =>
      rw [hp] at hx
      cases hx
      have hafter : (Session.act (actRegister name) v).2 = after (Vault.register name v) := by
        rw [Vault.act_snd]
        unfold actRegister
        cases hregister : Vault.register name v with
        | ok id? w =>
          rw [bind_run_ok hregister]
          cases id? <;> rfl
        | error e w =>
          rw [bind_run_error hregister]
          rfl
      rw [hafter]
      exact (Vault.clients_register name v).imp_right fun h => .inl ⟨name, rfl, h⟩
    | identifying client name key =>
      rw [hp] at hx
      cases hx
      rw [act_identify]
      exact .inl rfl
    | issuing client publicKey =>
      rw [hp] at hx
      cases hx
      rcases issue_cases client publicKey v with ⟨-, e, entropy, h⟩ | ⟨-, ⟨h, -⟩ | h⟩
      · rw [h]
        exact .inl rfl
      · exact .inl h
      · exact .inr (.inr ⟨client, publicKey, rfl, h⟩)
    | storing client filename content =>
      rw [hp] at hx
      cases hx
      rw [act_store]
      left
      dsimp only
      unfold storing
      cases Registry.store client.storageId filename content v.storage <;> rfl
    | _ =>
      rw [hp] at hx
      cases hx
  · rw [(step_of_waits hwaits).1]
    exact .inl rfl
  · rw [(step_of_ended ho).1]
    exact .inl rfl

end Conversation

/-! ## §3 Sessions that go on -/

namespace Session

/-- A step of a session: the vault that it found, what it did, and the vault that it left. -/
structure Move where
  before : Vault
  events : List Event
  after : Vault

/-- What a session did in some steps. -/
def log (S : List Move) : List Event := S.flatMap Move.events

theorem log_concat (S : List Move) (s : Move) : log (S ++ [s]) = log S ++ s.events := by
  rw [log, List.flatMap_append, List.flatMap_singleton, log]

/-- The session is with this client and has this key, as far as it still needs them. -/
def Phase.Uses (client : ClientId) (key : SessionKey) : Phase → Prop
  | .receiving client' key' | .judging client' key' _ _ => client' = client ∧ key' = key
  | .storing client' _ _ => client' = client
  | .ended _ => True
  | _ => False

end Session

namespace Conversation

/-- The step that a session takes when it finds a vault. -/
def move (c : Conversation) (v : Vault) : Move := ⟨v, c.events v, (c.step v).2⟩

/-- The steps of a session in order.  Others may do anything to the vault in between, and bytes
come in at any time. -/
inductive Walks (c : Conversation) : List Move → Conversation → Prop where
  | here : Walks c [] c
  | arrives {S : List Move} {c' : Conversation} (a : Arrival) (h : Walks c S c') :
      Walks c S (Site.arrive c' a)
  | moves {S : List Move} {c' : Conversation} (v : Vault) (h : Walks c S c') :
      Walks c (S ++ [c'.move v]) (c'.step v).1

variable {c c' : Conversation} {S : List Move} {s : Move}

/-- The next phase is the one of the turn, unless the answer cannot be sent. -/
theorem take_phase (c : Conversation) (turn : Turn) :
    (c.take turn).phase = turn.phase ∨ ∃ e, (c.take turn).phase = .ended (.error e) := by
  unfold take
  split
  · exact .inl rfl
  · split
    · exact .inr ⟨_, rfl⟩
    · split
      · exact .inl rfl
      · exact .inr ⟨_, rfl⟩

/-- Once it has a key, a session keeps it, and stays with its client. -/
theorem step_uses {client : ClientId} {key : SessionKey} (h : c.phase.Uses client key) (v : Vault) :
    (c.step v).1.phase.Uses client key := by
  -- Whatever cannot be sent ends the session.
  have htake (c : Conversation) {turn : Turn} (hturn : turn.phase.Uses client key) :
      (c.take turn).phase.Uses client key := by
    rcases take_phase c turn with hphase | ⟨e, hphase⟩
    · rwa [hphase]
    · rw [hphase]
      trivial
  have hheard (hwaits : Waits c.phase)
      (hturn : ∀ m, (Session.hear c.phase m).phase.Uses client key) :
      (c.step v).1.phase.Uses client key := by
    rw [(step_of_waits hwaits).1]
    unfold hear
    split
    · exact htake _ (hturn _)
    · trivial
  cases hp : c.phase with
  | receiving client' key' =>
    rw [hp] at h hheard
    refine hheard (waits_receiving _ _) fun m => ?_
    simp only [Session.hear, fromClient]
    split
    · unfold hearUpload
      split
      · exact h
      · trivial
    · trivial
  | judging client' key' filename content =>
    rw [hp] at h hheard
    refine hheard (waits_judging _ _ _ _) fun m => ?_
    simp only [Session.hear, fromClient]
    split
    · unfold hearVerdict
      split
      · split
        · exact h.1
        · trivial
      · exact h
      · trivial
      · trivial
    · trivial
  | storing client' filename content =>
    rw [(step_of_action (by rw [hp]; rfl)).1]
    refine htake c ?_
    rw [act_store]
    dsimp only
    split <;> trivial
  | ended o =>
    rw [(step_of_ended hp).1, hp]
    trivial
  | _ =>
    rw [hp] at h
    exact absurd h id

/-- So it does for the rest of its course, by induction on its steps. -/
theorem Walks.uses {client : ClientId} {key : SessionKey} (h : c.Walks S c')
    (hc : c.phase.Uses client key) : c'.phase.Uses client key := by
  induction h with
  | here => exact hc
  | arrives a h ih => exact ih
  | moves v h ih => exact step_uses ih v

end Conversation

/-! ## §4 The changes of a whole session -/

namespace Session

/-- The step changed no client. -/
def Move.Quiet (s : Move) : Prop := s.after.clients = s.before.clients

/-- The step registered a client. -/
def Move.Registers (s : Move) : Prop :=
  ∃ name, .registered name ∈ s.events ∧ Enrols name s.before.clients s.after.clients

/-- The step issued a key to the client. -/
def Move.Issues (client : ClientId) (s : Move) : Prop :=
  ∃ publicKey key, .issued client publicKey key ∈ s.events ∧
    Rekeys client publicKey key s.before.now s.before.clients s.after.clients

/-- No step changed a client but one at most, which registered one. -/
def Entering (S : List Move) : Prop :=
  (∀ s ∈ S, s.Quiet) ∨
    ∃ L s R, S = L ++ s :: R ∧ (∀ s ∈ L, s.Quiet) ∧ s.Registers ∧ ∀ s ∈ R, s.Quiet

/-- No step changed a client but one at most that registered one, and then one at most that issued
a key to the client who had presented a public key. -/
def Discreet (S : List Move) : Prop :=
  Entering S ∨ ∃ L s R client, S = L ++ s :: R ∧ Entering L ∧ presenters (log L) = [client] ∧
    s.Issues client ∧ ∀ s ∈ R, s.Quiet

/-- The changes of a session in each phase. -/
def DiscreetAt (S : List Move) : Phase → Prop
  | .greeting | .registering _ => (∀ s ∈ S, s.Quiet) ∧ presenters (log S) = []
  | .registered => Entering S ∧ presenters (log S) = []
  | .identifying client _ _ | .issuing client _ => Entering S ∧ presenters (log S) = [client]
  | _ => Discreet S

variable {S : List Move} {s : Move} {phase : Phase}

theorem quiet_concat (h : ∀ s ∈ S, s.Quiet) (hs : s.Quiet) : ∀ t ∈ S ++ [s], t.Quiet := by
  intro t ht
  rcases List.mem_append.mp ht with ht | ht
  · exact h t ht
  · rwa [List.mem_singleton.mp ht]

theorem Entering.concat (h : Entering S) (hs : s.Quiet) : Entering (S ++ [s]) := by
  rcases h with h | ⟨L, t, R, rfl, hL, ht, hR⟩
  · exact .inl (quiet_concat h hs)
  · exact .inr ⟨L, t, R ++ [s], List.append_assoc .., hL, ht, quiet_concat hR hs⟩

theorem Discreet.concat (h : Discreet S) (hs : s.Quiet) : Discreet (S ++ [s]) := by
  rcases h with h | ⟨L, t, R, client, rfl, hL, hclient, ht, hR⟩
  · exact .inl (h.concat hs)
  · exact .inr ⟨L, t, R ++ [s], client, List.append_assoc .., hL, hclient, ht, quiet_concat hR hs⟩

theorem DiscreetAt.discreet (h : DiscreetAt S phase) : Discreet S := by
  cases phase with
  | greeting | registering _ => exact .inl (.inl h.1)
  | registered | identifying _ _ _ | issuing _ _ => exact .inl h.1
  | receiving _ _ | judging _ _ _ _ | storing _ _ _ | ended _ => exact h

/-- With a key, or at the end, the phase adds nothing. -/
theorem DiscreetAt.of_uses {client : ClientId} {key : SessionKey} (h : Discreet S)
    (hphase : phase.Uses client key) : DiscreetAt S phase := by
  cases phase with
  | receiving _ _ | judging _ _ _ _ | storing _ _ _ | ended _ => exact h
  | _ => exact absurd hphase id

end Session

namespace Conversation

variable {c : Conversation} {S : List Move}

/-- A session without a client hears a message: it asks for an identity or presents a public key, or
the session ends. -/
theorem step_early (hphase : c.phase = .greeting ∨ c.phase = .registered) (v : Vault) :
    (c.step v).2 = v ∧
      ((∃ name, c.phase = .greeting ∧ (c.step v).1.phase = .registering name ∧
          presenters (c.events v) = []) ∨
        (∃ client name key, (c.step v).1.phase = .identifying client name key ∧
          presenters (c.events v) = [client]) ∨
        ∃ o, (c.step v).1.phase = .ended o) := by
  have hwaits : Waits c.phase := by
    rcases hphase with h | h <;> rw [h]
    · exact waits_greeting
    · exact waits_registered
  obtain ⟨hstep, hevents⟩ := step_of_waits (v := v) hwaits
  rw [hstep, hevents]
  refine ⟨rfl, ?_⟩
  unfold hear
  cases hdecode : ClientMessage.decode c.version c.incoming with
  | error e incoming => exact .inr (.inr ⟨_, rfl⟩)
  | ok m incoming =>
    obtain ⟨sender, version, body⟩ := m
    rcases hphase with h | h <;> rw [h]
    · cases body with
      | registration name =>
        simp only [Session.hear, hearGreeting]
        cases name.toText with
        | ok text => exact .inl ⟨text, trivial, rfl, rfl⟩
        | error e => exact .inr (.inr ⟨_, rfl⟩)
      | publicKey name key => exact .inr (.inl ⟨sender, name, key, rfl, rfl⟩)
      | _ => exact .inr (.inr ⟨_, rfl⟩)
    · cases body with
      | publicKey name key => exact .inr (.inl ⟨sender, name, key, rfl, rfl⟩)
      | _ => exact .inr (.inr ⟨_, rfl⟩)

theorem presenters_replies (c : Conversation) (turn : Turn) : presenters (c.replies turn) = [] := by
  unfold replies
  split
  · rfl
  · split
    · rfl
    · split <;> rfl

/-- The action of a phase presents no public key. -/
theorem presenters_action {x : Vaulted Turn} (hx : action? c.phase = some x) (v : Vault) :
    presenters (log (S ++ [c.move v])) = presenters (log S) := by
  have hdeed : presenters (deed? c.phase v).toList = [] := by
    cases c.phase <;> rfl
  rw [log_concat, presenters_append, move, (step_of_action hx).2, presenters_append, hdeed,
    presenters_replies, List.append_nil, List.append_nil]

theorem move_quiet (hregistering : ∀ name, c.phase ≠ .registering name)
    (hissuing : ∀ client publicKey, c.phase ≠ .issuing client publicKey) (v : Vault) :
    (c.move v).Quiet := by
  rcases step_clients c v with hsame | ⟨name, hp, -⟩ | ⟨client, publicKey, hp, -⟩
  · exact hsame
  · exact absurd hp (hregistering name)
  · exact absurd hp (hissuing client publicKey)

theorem discreetAt_early (hphase : c.phase = .greeting ∨ c.phase = .registered)
    (h : DiscreetAt S c.phase) (v : Vault) : DiscreetAt (S ++ [c.move v]) (c.step v).1.phase := by
  have hdiscreet := h.discreet
  have hentering : Entering S ∧ presenters (log S) = [] := by
    rcases hphase with hp | hp <;> rw [hp] at h
    · exact ⟨.inl h.1, h.2⟩
    · exact h
  obtain ⟨hsame, hnext⟩ := step_early hphase v
  have hquiet : (c.move v).Quiet := congrArg Vault.clients hsame
  have hlog : presenters (log (S ++ [c.move v])) = presenters (c.events v) := by
    rw [log_concat, presenters_append, hentering.2, List.nil_append, move]
  rcases hnext with ⟨name, hp, hnext, hevents⟩ | ⟨client, name, key, hnext, hevents⟩ | ⟨o, hnext⟩
  · rw [hp] at h
    rw [hnext]
    exact ⟨quiet_concat h.1 hquiet, hlog.trans hevents⟩
  · rw [hnext]
    exact ⟨hentering.1.concat hquiet, hlog.trans hevents⟩
  · rw [hnext]
    exact hdiscreet.concat hquiet

theorem discreetAt_registering {name : String} (hp : c.phase = .registering name)
    (h : DiscreetAt S c.phase) (v : Vault) : DiscreetAt (S ++ [c.move v]) (c.step v).1.phase := by
  have hx : action? c.phase = some (actRegister name) := by rw [hp]; rfl
  have hlog := presenters_action (S := S) hx v
  rw [hp] at h
  -- The step registers a client, or fails to.
  have hentering : Entering (S ++ [c.move v]) := by
    rcases step_clients c v with hsame | ⟨name', hp', henrols⟩ | ⟨client, publicKey, hp', -⟩
    · exact .inl (quiet_concat h.1 hsame)
    · refine .inr ⟨S, c.move v, [], rfl, h.1, ⟨name', ?_, henrols⟩, nofun⟩
      rw [move, (step_of_action hx).2, hp']
      exact List.mem_append_left _ List.mem_cons_self
    · cases hp.symm.trans hp'
  rw [(step_of_action hx).1]
  rcases take_phase c (act (actRegister name) v).1 with hphase | ⟨e, hphase⟩
  · rw [hphase]
    rcases act_register name v with ⟨id, hturn⟩ | hturn | ⟨e, hturn⟩ <;> rw [hturn]
    · exact ⟨hentering, hlog.trans h.2⟩
    · exact .inl hentering
    · exact .inl hentering
  · rw [hphase]
    exact .inl hentering

theorem discreetAt_identifying {client : ClientId} {name : Name} {key : Bytes}
    (hp : c.phase = .identifying client name key) (h : DiscreetAt S c.phase) (v : Vault) :
    DiscreetAt (S ++ [c.move v]) (c.step v).1.phase := by
  have hx : action? c.phase = some (actIdentify client name key) := by rw [hp]; rfl
  have hlog := presenters_action (S := S) hx v
  have hquiet : (c.move v).Quiet := move_quiet (by rw [hp]; nofun) (by rw [hp]; nofun) v
  rw [hp] at h
  rw [(step_of_action hx).1, act_identify]
  rcases take_phase c (identified v.clients client name key) with hphase | ⟨e, hphase⟩
  · rw [hphase]
    rcases identified_cases v.clients client name key with ⟨publicKey, hturn⟩ | ⟨e, hturn⟩ <;>
      rw [hturn]
    · exact ⟨h.1.concat hquiet, hlog.trans h.2⟩
    · exact .inl (h.1.concat hquiet)
  · rw [hphase]
    exact .inl (h.1.concat hquiet)

theorem discreetAt_issuing {client : ClientId} {publicKey : PublicKey}
    (hp : c.phase = .issuing client publicKey) (h : DiscreetAt S c.phase) (v : Vault) :
    DiscreetAt (S ++ [c.move v]) (c.step v).1.phase := by
  have hx : action? c.phase = some (actIssue client publicKey) := by rw [hp]; rfl
  rw [hp] at h
  have hdiscreet : Discreet (S ++ [c.move v]) := by
    rcases step_clients c v with hsame | ⟨name, hp', -⟩ | ⟨client', publicKey', hp', hrekeys⟩
    · exact .inl (h.1.concat hsame)
    · cases hp.symm.trans hp'
    · cases hp.symm.trans hp'
      refine .inr ⟨S, c.move v, [], client, rfl, h.1, h.2, ⟨publicKey, _, ?_, hrekeys⟩, nofun⟩
      rw [move, (step_of_action hx).2, hp]
      exact List.mem_append_left _ List.mem_cons_self
  have huses : (c.step v).1.phase.Uses client (SessionKey.generate v.entropy).1 := by
    rw [(step_of_action hx).1]
    rcases take_phase c (act (actIssue client publicKey) v).1 with hphase | ⟨e, hphase⟩
    · rw [hphase]
      rcases act_issue client publicKey v with ⟨encrypted, e, -, hturn⟩ | ⟨e, hturn⟩ <;> rw [hturn]
      · exact ⟨rfl, rfl⟩
      · trivial
    · rw [hphase]
      trivial
  exact .of_uses hdiscreet huses

theorem discreetAt_uses {client : ClientId} {key : SessionKey} (huses : c.phase.Uses client key)
    (h : DiscreetAt S c.phase) (v : Vault) : DiscreetAt (S ++ [c.move v]) (c.step v).1.phase := by
  refine .of_uses (h.discreet.concat (move_quiet ?_ ?_ v)) (step_uses huses v)
  · rintro name hp
    rw [hp] at huses
    exact huses
  · rintro client' publicKey hp
    rw [hp] at huses
    exact huses

/-- Each step goes on with the changes of its phase. -/
theorem step_discreetAt (h : DiscreetAt S c.phase) (v : Vault) :
    DiscreetAt (S ++ [c.move v]) (c.step v).1.phase := by
  cases hp : c.phase with
  | greeting => exact discreetAt_early (.inl hp) h v
  | registered => exact discreetAt_early (.inr hp) h v
  | registering name => exact discreetAt_registering hp h v
  | identifying client name key => exact discreetAt_identifying hp h v
  | issuing client publicKey => exact discreetAt_issuing hp h v
  | receiving client key | judging client key filename content =>
    have huses : c.phase.Uses client key := by
      rw [hp]
      exact ⟨rfl, rfl⟩
    exact discreetAt_uses huses h v
  -- Which key it was does not matter any more.
  | storing client filename content =>
    have huses : c.phase.Uses client (SessionKey.generate v.entropy).1 := by
      rw [hp]
      rfl
    exact discreetAt_uses huses h v
  | ended o =>
    have huses : c.phase.Uses ClientId.unregistered (SessionKey.generate v.entropy).1 := by
      rw [hp]
      trivial
    exact discreetAt_uses huses h v

end Conversation

namespace Session

/-- Whatever its client sends and whatever others do, a session makes no changes but these, by
induction on its steps. -/
theorem discreet_of_walks {version : UInt8} {incoming : Reader} {outgoing : Sink} {c : Conversation}
    {S : List Move} (h : Conversation.Walks { version, incoming, outgoing } S c) : Discreet S := by
  have hphase : DiscreetAt S c.phase := by
    induction h with
    | here => exact ⟨nofun, rfl⟩
    | arrives a h ih => exact ih
    | moves v h ih => exact Conversation.step_discreetAt ih v
  exact hphase.discreet

/-! ### A session for itself -/

/-- Nobody came between the steps: each found the vault that the one before it had left. -/
def Uninterrupted : Vault → List Move → Vault → Prop
  | v, [], v' => v' = v
  | v, s :: S, v' => s.before = v ∧ Uninterrupted s.after S v'

/-- From the first directory to the second, the session registered a client or none, and then gave
keys to a client who had presented a public key, or to none. -/
def Changed (L : List Event) (d d' : ClientDirectory) : Prop :=
  ∃ d₁, (d₁ = d ∨ ∃ name, .registered name ∈ L ∧ Enrols name d d₁) ∧
    (d' = d₁ ∨ ∃ client publicKey key now, client ∈ presenters L ∧
      .issued client publicKey key ∈ L ∧ Rekeys client publicKey key now d₁ d')

variable {S L R : List Move} {s : Move} {v v' : Vault}

theorem uninterrupted_append (h : Uninterrupted v (L ++ R) v') :
    ∃ w, Uninterrupted v L w ∧ Uninterrupted w R v' := by
  induction L generalizing v with
  | nil => exact ⟨v, rfl, h⟩
  | cons t L ih =>
    obtain ⟨w, hL, hR⟩ := ih h.2
    exact ⟨w, ⟨h.1, hL⟩, hR⟩

theorem Uninterrupted.quiet (h : Uninterrupted v S v') (hS : ∀ s ∈ S, s.Quiet) :
    v'.clients = v.clients := by
  induction S generalizing v with
  | nil => rw [h]
  | cons t S ih =>
    rw [ih h.2 fun s hs => hS s (List.mem_cons_of_mem _ hs), hS t List.mem_cons_self, h.1]

/-- One step among quiet ones makes all the difference. -/
theorem Uninterrupted.single (h : Uninterrupted v (L ++ s :: R) v') (hR : ∀ s ∈ R, s.Quiet) :
    Uninterrupted v L s.before ∧ v'.clients = s.after.clients := by
  obtain ⟨w, hL, hbefore, hrest⟩ := uninterrupted_append h
  exact ⟨hbefore ▸ hL, hrest.quiet hR⟩

theorem mem_log (hs : s ∈ S) {e : Event} (he : e ∈ s.events) : e ∈ log S :=
  List.mem_flatMap.mpr ⟨s, hs, he⟩

theorem Entering.changed (h : Entering S) (hS : Uninterrupted v S v') :
    v'.clients = v.clients ∨
      ∃ name, .registered name ∈ log S ∧ Enrols name v.clients v'.clients := by
  rcases h with h | ⟨L, s, R, rfl, hL, ⟨name, hname, henrols⟩, hR⟩
  · exact .inl (hS.quiet h)
  · obtain ⟨hfirst, hlast⟩ := hS.single hR
    rw [hfirst.quiet hL, ← hlast] at henrols
    exact .inr ⟨name, mem_log (List.mem_append_right _ List.mem_cons_self) hname, henrols⟩

/-- What a session changes in all, if nobody else changes anything. -/
theorem Discreet.changed (h : Discreet S) (hS : Uninterrupted v S v') :
    Changed (log S) v.clients v'.clients := by
  rcases h with h | ⟨L, s, R, client, rfl, hL, hclient, ⟨publicKey, key, hissued, hrekeys⟩, hR⟩
  · exact ⟨v'.clients, h.changed hS, .inl rfl⟩
  · obtain ⟨hfirst, hlast⟩ := hS.single hR
    have hlog : log (L ++ s :: R) = log L ++ log (s :: R) := List.flatMap_append
    refine ⟨s.before.clients, ?_, .inr ⟨client, publicKey, key, s.before.now, ?_, ?_, ?_⟩⟩
    · rcases hL.changed hfirst with hsame | ⟨name, hname, henrols⟩
      · exact .inl hsame
      · exact .inr ⟨name, hlog ▸ List.mem_append_left _ hname, henrols⟩
    · rw [hlog, presenters_append, hclient]
      exact List.mem_append_left _ List.mem_cons_self
    · exact mem_log (List.mem_append_right _ List.mem_cons_self) hissued
    · rw [hlast]
      exact hrekeys

end Session

end BackupVault
