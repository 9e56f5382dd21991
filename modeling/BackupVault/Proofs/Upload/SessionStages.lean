import BackupVault.Proofs.Crypto.SessionKey
import BackupVault.Proofs.Log
import BackupVault.Proofs.Upload.SessionLog
import BackupVault.Proofs.Wire.Sizes

/-!
# The stages of a session

Whatever a client sends, and whatever others do to the vault in the meantime, a session stores a
file only directly after the client accepted the checksum of its latest upload, and decrypts only
with the key that it issued itself.

## Overview

- `Session.Pending`, `Session.Allowed`: when something may be done
- `Session.Stage`: what the log of a session is like in each phase
- `Conversation.step_reached`: each step goes from stage to stage
-/

set_option autoImplicit false

namespace BackupVault

namespace Session

/-! ## §1 What a log tells -/

/-- The clients that presented a public key. -/
def presenters (L : List Event) : List ClientId :=
  L.filterMap fun
    | .heard { sender, version := _, body := .publicKey .. } => some sender
    | _ => none

/-- The session keys that were issued. -/
def keys (L : List Event) : List SessionKey :=
  L.filterMap fun
    | .issued _ _ key => some key
    | _ => none

/-- The outcomes of storing files. -/
def stores (L : List Event) : List (Except StorageError Path) :=
  L.filterMap fun
    | .stored _ _ _ outcome => some outcome
    | _ => none

@[simp]
theorem presenters_append (L M : List Event) :
    presenters (L ++ M) = presenters L ++ presenters M := List.filterMap_append

@[simp]
theorem keys_append (L M : List Event) : keys (L ++ M) = keys L ++ keys M := List.filterMap_append

@[simp]
theorem stores_append (L M : List Event) : stores (L ++ M) = stores L ++ stores M :=
  List.filterMap_append

/-- The client `client` uploaded a file, whose content under the session key is `content`, and
was told its size and checksum; nothing happened since. -/
def Pending (L : List Event) (client : ClientId) (key : SessionKey) (filename : Name)
    (content : Bytes) : Prop :=
  ∃ L' m encrypted size,
    L = L' ++ [.heard m, .said (.uploaded client size filename (cksum content))] ∧
      m.sender = client ∧ m.body = .upload filename encrypted ∧
        content = plainContent key encrypted ∧ size.toNat = content.size

/-- The client accepted the checksum that it was told; nothing happened since. -/
def Accepted (L : List Event) (client : ClientId) (key : SessionKey) (filename : Name)
    (content : Bytes) : Prop :=
  ∃ L' m, L = L' ++ [.heard m] ∧ m.sender = client ∧ m.body.code = .accept ∧
    Pending L' client key filename content

/-- Only this client presented a public key, and only this key was issued. -/
def Exchanged (L : List Event) (client : ClientId) (key : SessionKey) : Prop :=
  presenters L = [client] ∧ keys L = [key]

/-- After these events the event may happen. -/
def Allowed (L : List Event) : Event → Prop
  | .stored user filename content _ => ∃ client key name,
      Exchanged L client key ∧ user = client.storageId ∧ name.toText = .ok filename ∧
        Accepted L client key name content
  | .said .success => ∃ L' user filename content path,
      L = L' ++ [.stored user filename content (.ok path)]
  | .said (.uploaded client size filename checksum) => ∃ key L' m encrypted,
      Exchanged L client key ∧ L = L' ++ [.heard m] ∧ m.sender = client ∧
        m.body = .upload filename encrypted ∧
          size.toNat = (plainContent key encrypted).size ∧
            checksum = cksum (plainContent key encrypted)
  | .said (.sessionKey client encrypted) => ∃ L' publicKey key entropy,
      L = L' ++ [.issued client publicKey key] ∧
        (publicKey.encrypt key.bytes entropy).1 = .ok encrypted
  | .issued client _ _ => presenters L = [client] ∧ keys L = []
  | _ => True

/-! ## §2 Stages -/

/-- Nothing was stored so far. -/
def Idle (L : List Event) : Prop := stores L = [] ∧ .said .success ∉ L

/-- How the log of a session ends: without a file stored, with one stored and confirmed, or with
one that could not be stored. -/
inductive Closed (L : List Event) : Except SessionError Unit → Prop where
  | without {outcome : Except SessionError Unit} (h : Idle L) : Closed L outcome
  | confirmed {L' : List Event} {user : UserId} {filename : String} {content : Bytes} {path : Path}
      (h : Idle L') (hL : L = L' ++ [.stored user filename content (.ok path), .said .success]) :
      Closed L (.ok ())
  | failed {L' : List Event} {user : UserId} {filename : String} {content : Bytes}
      {e : StorageError} (h : Idle L')
      (hL : L = L' ++ [.stored user filename content (.error e)]) :
      Closed L (.error (.storage e))

/-- What the log of a session is like in each phase. -/
def Stage (L : List Event) : Phase → Prop
  | .greeting | .registering _ | .registered => Idle L ∧ presenters L = [] ∧ keys L = []
  | .identifying client _ _ | .issuing client _ =>
    Idle L ∧ presenters L = [client] ∧ keys L = []
  | .receiving client key => Idle L ∧ Exchanged L client key
  | .judging client key filename content =>
    Idle L ∧ Exchanged L client key ∧ Pending L client key filename content
  | .storing client filename content => ∃ key name,
      Idle L ∧ Exchanged L client key ∧ name.toText = .ok filename ∧
        Accepted L client key name content
  | .ended outcome => (keys L).length ≤ 1 ∧ Closed L outcome

/-- A stage that was reached in good order. -/
def Reached (L : List Event) (phase : Phase) : Prop := Stage L phase ∧ Orderly Allowed L

theorem Stage.keys_le {L : List Event} {phase : Phase} (h : Stage L phase) :
    (keys L).length ≤ 1 := by
  -- Before the keys were exchanged there is no key in the log, and afterwards one.
  have hnone : keys L = [] → (keys L).length ≤ 1 := fun h => by simp [h]
  have hone : ∀ key, keys L = [key] → (keys L).length ≤ 1 := fun _ h => by simp [h]
  cases phase with
  | greeting | registering _ | registered | identifying _ _ _ | issuing _ _ => exact hnone h.2.2
  | receiving client key => exact hone key h.2.2
  | judging client key filename content => exact hone key h.2.1.2
  | storing client filename content =>
    obtain ⟨key, name, -, hkey, -⟩ := h
    exact hone key hkey.2
  | ended outcome => exact h.1

/-- While a session goes on, nothing was stored. -/
theorem Stage.idle {L : List Event} {phase : Phase} (h : Stage L phase)
    (hopen : ∀ o, phase ≠ .ended o) : Idle L := by
  cases phase with
  | ended o => exact absurd rfl (hopen o)
  | storing client filename content =>
    obtain ⟨key, name, hidle, -⟩ := h
    exact hidle
  | _ => exact h.1

/-! ## §3 Hearing a message -/

section Hearing

variable {L M : List Event} {phase phase' : Phase} {turn : Turn} {m : ClientMessage}

theorem Idle.concat {e : Event} (h : Idle L) (hstores : stores [e] = [])
    (hsuccess : e ≠ .said .success) : Idle (L ++ [e]) := by
  refine ⟨by rw [stores_append, h.1, hstores]; rfl, fun hmem => ?_⟩
  rcases List.mem_append.mp hmem with hmem | hmem
  · exact h.2 hmem
  · exact hsuccess (List.mem_singleton.mp hmem).symm

theorem Idle.heard (h : Idle L) (m : ClientMessage) : Idle (L ++ [.heard m]) :=
  h.concat rfl nofun

theorem presenters_heard (hm : m.body.code ≠ .publicKey) : presenters [.heard m] = [] := by
  obtain ⟨sender, version, body⟩ := m
  cases body <;> first | rfl | exact absurd rfl hm

theorem Exchanged.heard {client : ClientId} {key : SessionKey} (h : Exchanged L client key)
    (hm : m.body.code ≠ .publicKey) : Exchanged (L ++ [.heard m]) client key := by
  refine ⟨?_, ?_⟩
  · rw [presenters_append, h.1, presenters_heard hm, List.append_nil]
  · rw [keys_append, h.2]
    rfl

theorem Idle.said (h : Idle L) {body : ServerBody} (hbody : body ≠ .success) :
    Idle (L ++ [.said body]) :=
  h.concat rfl fun heq => hbody (by cases heq; rfl)

theorem Exchanged.said {client : ClientId} {key : SessionKey} (h : Exchanged L client key)
    (body : ServerBody) : Exchanged (L ++ [.said body]) client key := by
  refine ⟨?_, ?_⟩
  · rw [presenters_append, h.1]
    rfl
  · rw [keys_append, h.2]
    rfl

theorem Reached.ended {outcome : Except SessionError Unit} (hidle : Idle L)
    (hkeys : (keys L).length ≤ 1) (hord : Orderly Allowed L) : Reached L (.ended outcome) :=
  ⟨⟨hkeys, .without hidle⟩, hord⟩

/-- A message that the session does not expect ends it. -/
theorem Reached.heard_fail (h : Reached L phase) (hopen : ∀ o, phase ≠ .ended o)
    {outcome : Except SessionError Unit}
    (htook : Conversation.Took { phase := .ended outcome } phase' M) :
    Reached (L ++ .heard m :: M) phase' := by
  have hkeys : keys (L ++ [.heard m]) = keys L := by
    rw [keys_append]
    exact List.append_nil _
  obtain ⟨rfl, rfl⟩ := htook.silent rfl
  exact .ended ((h.1.idle hopen).heard m) (hkeys ▸ h.1.keys_le) (h.2.concat trivial)

/-- A message that tells the session who the client is, or asks for an identity. -/
theorem Reached.before_exchange (hidle : Idle L) (hkeys : keys L = []) (hord : Orderly Allowed L) :
    Idle (L ++ [.heard m]) ∧ keys (L ++ [.heard m]) = [] ∧ Orderly Allowed (L ++ [.heard m]) := by
  refine ⟨hidle.heard m, ?_, hord.concat trivial⟩
  rw [keys_append, hkeys]
  rfl

theorem Reached.greeting (h : Reached L .greeting)
    (htook : Conversation.Took (hear .greeting m) phase' M) :
    Reached (L ++ .heard m :: M) phase' := by
  have hfail (e : SessionError) (hended : Conversation.Took (.fail e) phase' M) :
      Reached (L ++ .heard m :: M) phase' := h.heard_fail nofun hended
  obtain ⟨⟨hidle, hpresenters, hkeys⟩, hord⟩ := h
  obtain ⟨hidle', hkeys', hord'⟩ := before_exchange (m := m) hidle hkeys hord
  -- Only a registration or a public key is taken; everything else ends the session.
  obtain ⟨sender, version, body⟩ := m
  simp only [hear, hearGreeting] at htook
  cases body with
  | registration name =>
    cases hname : name.toText with
    | error e =>
      simp only [hname] at htook
      exact hfail _ htook
    | ok text =>
      simp only [hname] at htook
      obtain ⟨rfl, rfl⟩ := htook.silent rfl
      exact ⟨⟨hidle', by rw [presenters_append, hpresenters]; rfl, hkeys'⟩, hord'⟩
  | publicKey name key =>
    obtain ⟨rfl, rfl⟩ := htook.silent rfl
    exact ⟨⟨hidle', by rw [presenters_append, hpresenters]; rfl, hkeys'⟩, hord'⟩
  | _ => exact hfail _ htook

theorem Reached.registered (h : Reached L .registered)
    (htook : Conversation.Took (hear .registered m) phase' M) :
    Reached (L ++ .heard m :: M) phase' := by
  have hfail (e : SessionError) (hended : Conversation.Took (.fail e) phase' M) :
      Reached (L ++ .heard m :: M) phase' := h.heard_fail nofun hended
  obtain ⟨⟨hidle, hpresenters, hkeys⟩, hord⟩ := h
  obtain ⟨hidle', hkeys', hord'⟩ := before_exchange (m := m) hidle hkeys hord
  obtain ⟨sender, version, body⟩ := m
  cases body with
  | publicKey name key =>
    obtain ⟨rfl, rfl⟩ := htook.silent rfl
    exact ⟨⟨hidle', by rw [presenters_append, hpresenters]; rfl, hkeys'⟩, hord'⟩
  | _ => exact hfail _ htook

theorem size_plainContent (key : SessionKey) (encrypted : Bytes) :
    (plainContent key encrypted).size ≤ encrypted.size := by
  unfold plainContent
  cases h : key.decrypt encrypted with
  | ok plain => exact SessionKey.size_of_decrypt h
  | error e => exact Nat.le_refl _

/-- An upload is acknowledged with its size, which is never cut, and its checksum. -/
theorem Reached.receiving {client : ClientId} {key : SessionKey}
    (h : Reached L (.receiving client key))
    (hsize : ∀ filename content, m.body = .upload filename content → content.size ≤ maxPayload)
    (htook : Conversation.Took (hear (.receiving client key) m) phase' M) :
    Reached (L ++ .heard m :: M) phase' := by
  have hfail (e : SessionError) (hended : Conversation.Took (.fail e) phase' M) :
      Reached (L ++ .heard m :: M) phase' := h.heard_fail nofun hended
  obtain ⟨⟨hidle, hexchanged⟩, hord⟩ := h
  simp only [hear, fromClient] at htook
  split at htook
  · rename_i hsender
    cases hbody : m.body with
    | upload filename encrypted =>
      -- The message came in a payload, and decryption makes nothing longer, so that the size fits
      -- its field.
      obtain ⟨plain, hplain⟩ : ∃ plain, plainContent key encrypted = plain := ⟨_, rfl⟩
      have hcut : (UInt32.ofNat plain.size).toNat = plain.size := by
        have h₁ := hsize filename encrypted hbody
        have h₂ := size_plainContent key encrypted
        rw [hplain] at h₂
        exact UInt32.toNat_ofNat_of_lt' (Nat.lt_of_le_of_lt (Nat.le_trans h₂ h₁) (by decide))
      have hexchanged' : Exchanged (L ++ [.heard m]) client key :=
        hexchanged.heard (by rw [hbody]; exact nofun)
      have hord' : Orderly Allowed (L ++ [.heard m]) := hord.concat trivial
      simp only [hearUpload, hbody, hplain] at htook
      -- The acknowledgement is sent, or the session ends because it cannot be.
      rcases htook with ⟨rfl, rfl⟩ | ⟨body, e, -, rfl, rfl⟩
      · have hallowed : Allowed (L ++ [.heard m])
            (.said (.uploaded client (UInt32.ofNat plain.size) filename (cksum plain))) :=
          ⟨key, L, m, encrypted, hexchanged', rfl, hsender, hbody, by rw [hplain, hcut],
            by rw [hplain]⟩
        have hpending : Pending (L ++ [.heard m] ++
            [.said (.uploaded client (UInt32.ofNat plain.size) filename (cksum plain))])
            client key filename plain :=
          ⟨L, m, encrypted, _, List.append_assoc .., hsender, hbody, hplain.symm, hcut⟩
        rw [List.append_cons]
        exact ⟨⟨(hidle.heard m).said nofun, hexchanged'.said _, hpending⟩, hord'.concat hallowed⟩
      · exact .ended (hidle.heard m) (by rw [hexchanged'.2]; exact Nat.le_refl 1) hord'
    | _ =>
      simp only [hearUpload, hbody] at htook
      exact hfail _ htook
  · exact hfail _ htook

/-- Only an accepted checksum lets the session store the file. -/
theorem Reached.judging {client : ClientId} {key : SessionKey} {filename : Name}
    {content : Bytes} (h : Reached L (.judging client key filename content))
    (htook : Conversation.Took (hear (.judging client key filename content) m) phase' M) :
    Reached (L ++ .heard m :: M) phase' := by
  have hfail (o : Except SessionError Unit)
      (hended : Conversation.Took { phase := .ended o } phase' M) :
      Reached (L ++ .heard m :: M) phase' := h.heard_fail nofun hended
  obtain ⟨⟨hidle, hexchanged, hpending⟩, hord⟩ := h
  have hord' : Orderly Allowed (L ++ [.heard m]) := hord.concat trivial
  simp only [hear, fromClient] at htook
  split at htook
  -- The verdict is taken from the same client only.
  · rename_i hsender
    cases hbody : m.body with
    | accept _ =>
      cases hname : filename.toText with
      | error e =>
        simp only [hearVerdict, hbody, hname] at htook
        exact hfail _ htook
      | ok text =>
        simp only [hearVerdict, hbody, hname] at htook
        obtain ⟨rfl, rfl⟩ := htook.silent rfl
        have haccepted : Accepted (L ++ [.heard m]) client key filename content :=
          ⟨L, m, rfl, hsender, by rw [hbody]; rfl, hpending⟩
        exact ⟨⟨key, filename, hidle.heard m, hexchanged.heard (by rw [hbody]; exact nofun), hname,
          haccepted⟩, hord'⟩
    -- After a retry the file is forgotten, and another one may come.
    | retry _ =>
      simp only [hearVerdict, hbody] at htook
      obtain ⟨rfl, rfl⟩ := htook.silent rfl
      exact ⟨⟨hidle.heard m, hexchanged.heard (by rw [hbody]; exact nofun)⟩, hord'⟩
    | _ =>
      simp only [hearVerdict, hbody] at htook
      exact hfail _ htook
  · exact hfail _ htook

/-- Every message leads to a stage. -/
theorem Reached.heard (h : Reached L phase) (hwaits : Conversation.Waits phase)
    (hsize : ∀ filename content, m.body = .upload filename content → content.size ≤ maxPayload)
    (htook : Conversation.Took (hear phase m) phase' M) : Reached (L ++ .heard m :: M) phase' := by
  cases phase with
  | greeting => exact h.greeting htook
  | registered => exact h.registered htook
  | receiving client key => exact h.receiving hsize htook
  | judging client key filename content => exact h.judging htook
  | ended o => exact absurd rfl (hwaits.2 o)
  | registering _ | identifying _ _ _ | issuing _ _ | storing _ _ _ => cases hwaits.1

end Hearing

/-! ## §4 Acting -/

section Acting

variable {L M : List Event} {phase' : Phase} {v : Vault}

theorem Reached.registering {name : String} (h : Reached L (.registering name))
    (htook : Conversation.Took (act (actRegister name) v).1 phase' M) :
    Reached (L ++ .registered name :: M) phase' := by
  obtain ⟨⟨hidle, hpresenters, hkeys⟩, hord⟩ := h
  have hidle' : Idle (L ++ [.registered name]) := hidle.concat rfl nofun
  have hord' : Orderly Allowed (L ++ [.registered name]) := hord.concat trivial
  have hkeys' : keys (L ++ [.registered name]) = [] := by rw [keys_append, hkeys]; rfl
  -- Wherever the session ends, nothing was stored and no key was issued.
  have hend : ∀ outcome, Reached (L ++ [.registered name]) (.ended outcome) := fun outcome =>
    .ended hidle' (by rw [hkeys']; exact Nat.zero_le 1) hord'
  rcases act_register name v with ⟨id, hturn⟩ | hturn | ⟨e, hturn⟩
  · rw [hturn] at htook
    rcases htook with ⟨rfl, rfl⟩ | ⟨body, e, -, rfl, rfl⟩
    · have hallowed : Allowed (L ++ [.registered name]) (.said (.registered id)) := trivial
      rw [List.append_cons]
      refine ⟨⟨hidle'.said nofun, ?_, ?_⟩, hord'.concat hallowed⟩
      · rw [presenters_append, presenters_append, hpresenters]
        rfl
      · rw [keys_append, hkeys']
        rfl
    · exact hend _
  · rw [hturn] at htook
    rcases htook with ⟨rfl, rfl⟩ | ⟨body, e, -, rfl, rfl⟩
    · have hallowed : Allowed (L ++ [.registered name]) (.said .refused) := trivial
      rw [List.append_cons]
      refine .ended (hidle'.said nofun) ?_ (hord'.concat hallowed)
      rw [keys_append, hkeys']
      exact Nat.zero_le 1
    · exact hend _
  · rw [hturn] at htook
    obtain ⟨rfl, rfl⟩ := htook.silent rfl
    exact hend _

theorem identified_cases (d : ClientDirectory) (client : ClientId) (name : Name) (key : Bytes) :
    (∃ publicKey, identified d client name key = { phase := .issuing client publicKey }) ∨
      ∃ e, identified d client name key = .fail e := by
  unfold identified
  split
  · exact .inr ⟨_, rfl⟩
  · split
    · exact .inr ⟨_, rfl⟩
    · split
      · exact .inr ⟨_, rfl⟩
      · split
        · exact .inl ⟨_, rfl⟩
        · exact .inr ⟨_, rfl⟩

theorem Reached.identifying {client : ClientId} {name : Name} {key : Bytes}
    (h : Reached L (.identifying client name key))
    (htook : Conversation.Took (act (actIdentify client name key) v).1 phase' M) :
    Reached (L ++ .lookedUp client :: M) phase' := by
  obtain ⟨⟨hidle, hpresenters, hkeys⟩, hord⟩ := h
  have hidle' : Idle (L ++ [.lookedUp client]) := hidle.concat rfl nofun
  have hord' : Orderly Allowed (L ++ [.lookedUp client]) := hord.concat trivial
  have hkeys' : keys (L ++ [.lookedUp client]) = [] := by rw [keys_append, hkeys]; rfl
  rw [act_identify] at htook
  rcases identified_cases v.clients client name key with ⟨publicKey, hturn⟩ | ⟨e, hturn⟩
  · rw [hturn] at htook
    obtain ⟨rfl, rfl⟩ := htook.silent rfl
    exact ⟨⟨hidle', by rw [presenters_append, hpresenters]; rfl, hkeys'⟩, hord'⟩
  · rw [hturn] at htook
    obtain ⟨rfl, rfl⟩ := htook.silent rfl
    exact .ended hidle' (by rw [hkeys']; exact Nat.zero_le 1) hord'

theorem Reached.issuing {client : ClientId} {publicKey : PublicKey}
    (h : Reached L (.issuing client publicKey))
    (htook : Conversation.Took (act (actIssue client publicKey) v).1 phase' M) :
    Reached (L ++ .issued client publicKey (SessionKey.generate v.entropy).1 :: M) phase' := by
  obtain ⟨⟨hidle, hpresenters, hkeys⟩, hord⟩ := h
  -- The drawn key is the one of the event, and the session goes on with it.
  generalize hkey : (SessionKey.generate v.entropy).1 = key
  have hidle' : Idle (L ++ [.issued client publicKey key]) := hidle.concat rfl nofun
  have hord' : Orderly Allowed (L ++ [.issued client publicKey key]) :=
    hord.concat ⟨hpresenters, hkeys⟩
  have hexchanged : Exchanged (L ++ [.issued client publicKey key]) client key := by
    refine ⟨?_, ?_⟩
    · rw [presenters_append, hpresenters]
      rfl
    · rw [keys_append, hkeys]
      rfl
  -- If the key cannot be sent, it is still the only one that was issued.
  have hend : ∀ outcome, Reached (L ++ [.issued client publicKey key]) (.ended outcome) :=
    fun outcome => .ended hidle' (by rw [hexchanged.2]; exact Nat.le_refl 1) hord'
  have hact := act_issue client publicKey v
  rw [hkey] at hact
  rcases hact with ⟨encrypted, entropy, hencrypt, hturn⟩ | ⟨e, hturn⟩
  · rw [hturn] at htook
    rcases htook with ⟨rfl, rfl⟩ | ⟨body, e, -, rfl, rfl⟩
    · have hallowed : Allowed (L ++ [.issued client publicKey key])
          (.said (.sessionKey client encrypted)) :=
        ⟨L, publicKey, key, entropy, rfl, hencrypt⟩
      rw [List.append_cons]
      exact ⟨⟨hidle'.said nofun, hexchanged.said _⟩, hord'.concat hallowed⟩
    · exact hend _
  · rw [hturn] at htook
    obtain ⟨rfl, rfl⟩ := htook.silent rfl
    exact hend _

/-- Storing a file.  The confirmation is always short enough to be sent. -/
theorem Reached.storing {client : ClientId} {filename : String} {content : Bytes}
    (h : Reached L (.storing client filename content))
    (htook : Conversation.Took (act (actStore client filename content) v).1 phase' M)
    (hsent : ∀ body, (act (actStore client filename content) v).1.reply = some body →
      M = [.said body]) :
    Reached (L ++ .stored client.storageId filename content
      (Session.storing client.storageId filename content v).1 :: M) phase' := by
  obtain ⟨⟨key, name, hidle, hexchanged, hname, haccepted⟩, hord⟩ := h
  have hallowed : ∀ outcome,
      Allowed L (.stored client.storageId filename content outcome) := fun outcome =>
    ⟨client, key, name, hexchanged, rfl, hname, haccepted⟩
  -- Storing comes after the exchange of keys and issues none.
  have hkeys : ∀ M, keys M = [] → (keys (L ++ M)).length ≤ 1 := fun M hM => by
    rw [keys_append, hM, List.append_nil, hexchanged.2]
    exact Nat.le_refl 1
  rw [act_store] at htook hsent
  cases houtcome : (Session.storing client.storageId filename content v).1 with
  | ok path =>
    rw [houtcome] at htook hsent
    -- The file was stored: the confirmation was sent, and is the last event.
    obtain rfl := hsent _ rfl
    rcases htook with ⟨rfl, -⟩ | ⟨body, e, -, -, hM⟩
    · have hconfirmed : Allowed (L ++ [.stored client.storageId filename content (.ok path)])
          (.said .success) := ⟨L, _, _, _, path, rfl⟩
      refine ⟨⟨hkeys _ rfl, .confirmed hidle rfl⟩, ?_⟩
      rw [List.append_cons]
      exact (hord.concat (hallowed _)).concat hconfirmed
    · cases hM
  | error e =>
    rw [houtcome] at htook
    obtain ⟨rfl, rfl⟩ := htook.silent rfl
    exact ⟨⟨hkeys _ rfl, .failed hidle rfl⟩, hord.concat (hallowed _)⟩

end Acting

end Session

/-! ## §5 Steps -/

open Session

/-- The confirmation of a stored file can be sent. -/
theorem Conversation.replies_success {c : Conversation} (hlimit : c.outgoing.limit = none)
    {turn : Turn} (h : turn.reply = some .success) : c.replies turn = [.said .success] := by
  obtain ⟨b, hb⟩ := ServerMessage.encode_eq_ok (m := { version := c.version, body := .success })
    (Nat.zero_le _)
  simp only [replies, h, hb, Sink.write_of_unlimited hlimit]

/-- Each step goes from stage to stage. -/
theorem Conversation.step_reached {c : Conversation} {L : List Event}
    (hlimit : c.outgoing.limit = none) (h : Reached L c.phase) (v : Vault) :
    Reached (L ++ c.events v) (c.step v).1.phase := by
  rcases phase_cases c.phase with ⟨x, hx⟩ | hwaits | ⟨o, ho⟩
  · obtain ⟨hstep, hevents⟩ := step_of_action (v := v) hx
    obtain ⟨htook, -⟩ := take_spec hlimit (act x v).1
    rw [hstep, hevents]
    cases hp : c.phase with
    | registering name =>
      rw [hp] at h hx
      cases hx
      exact h.registering htook
    | identifying client name key =>
      rw [hp] at h hx
      cases hx
      exact h.identifying htook
    | issuing client publicKey =>
      rw [hp] at h hx
      cases hx
      exact h.issuing htook
    | storing client filename content =>
      rw [hp] at h hx
      cases hx
      -- The only answer to storing is the confirmation, which can always be encoded.
      refine h.storing htook fun body hbody => ?_
      have hsuccess : body = .success := by
        rw [act_store] at hbody
        split at hbody <;> cases hbody
        rfl
      rw [hsuccess] at hbody ⊢
      exact replies_success hlimit hbody
    | _ =>
      rw [hp] at hx
      cases hx
  · obtain ⟨hstep, hevents⟩ := step_of_waits (v := v) hwaits
    rw [hstep, hevents, Conversation.hear]
    cases hdecode : ClientMessage.decode c.version c.incoming with
    -- A message that was decoded is no longer than a payload.
    | ok m incoming =>
      obtain ⟨htook, -⟩ := take_spec (c := { c with incoming }) hlimit (Session.hear c.phase m)
      exact h.heard hwaits (fun _ _ hbody => ClientMessage.size_le_of_decode hdecode hbody) htook
    | error e incoming =>
      rw [List.append_nil]
      exact .ended (h.1.idle hwaits.2) h.1.keys_le h.2
  · obtain ⟨hstep, hevents⟩ := step_of_ended (v := v) ho
    rw [hstep, hevents, List.append_nil]
    exact h

end BackupVault
