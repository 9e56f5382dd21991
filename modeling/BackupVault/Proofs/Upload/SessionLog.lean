import BackupVault.Proofs.Wire.Written
import BackupVault.Upload.Conversation

/-!
# Logs of sessions

What a session does in one step is logged: the message it hears, what it does with the vault, and
the answer it sends.  The log of a step accounts for all that the step does to the vault and to
the connection.

## Overview

- `Session.Event`, `Session.Event.effect`: what a session does, and what this does to the vault
- `Session.act_identify`, `act_store`, `act_register`, `act_issue`: what each action leads to
- `Conversation.events`: the log of a step
- `Conversation.step_effects`: the vault after a step, by its log
- `Conversation.step_connected`: the bytes after a step, by its log
-/

set_option autoImplicit false

namespace BackupVault

/-! ## §1 Events -/

namespace Session

/-- Something that a session does. -/
inductive Event where
  /-- It hears a message. -/
  | heard (m : ClientMessage)
  /-- It sends an answer. -/
  | said (body : ServerBody)
  /-- It asks for an identity for a name. -/
  | registered (name : String)
  /-- It looks up a client. -/
  | lookedUp (client : ClientId)
  /-- It draws a session key for a client with a public key. -/
  | issued (client : ClientId) (publicKey : PublicKey) (key : SessionKey)
  /-- It stores a file of a user, with this outcome. -/
  | stored (user : UserId) (filename : String) (content : Bytes)
      (outcome : Except StorageError Path)

/-- What storing a file comes to. -/
def storing (user : UserId) (filename : String) (content : Bytes) (v : Vault) :
    Except StorageError Path × Vault :=
  match Registry.store user filename content v.storage with
  | .ok path s => (.ok path, v.withStorage s)
  | .error e s => (.error e, v.withStorage s)

/-- What an event does to the vault. -/
def Event.effect : Event → Vault → Vault
  | heard _, v => v
  | said _, v => v
  | registered name, v => (act (actRegister name) v).2
  | lookedUp _, v => v
  | issued client publicKey _, v => (act (actIssue client publicKey) v).2
  | stored user filename content _, v => (storing user filename content v).2

/-- What the events of a log do to the vault, one after another. -/
def effects (L : List Event) (v : Vault) : Vault := L.foldl (fun v e => e.effect v) v

/-- What a session does with the vault in a phase. -/
def deed? (phase : Phase) (v : Vault) : Option Event :=
  match phase with
  | .registering name => some (.registered name)
  | .identifying client _ _ => some (.lookedUp client)
  | .issuing client publicKey =>
    some (.issued client publicKey (SessionKey.generate v.entropy).1)
  | .storing client filename content =>
    some (.stored client.storageId filename content
      (storing client.storageId filename content v).1)
  | _ => none

/-! ## §2 Actions -/

/-- What looking up a client leads to. -/
def identified (d : ClientDirectory) (client : ClientId) (name : Name) (key : Bytes) : Turn :=
  match d.find? client with
  | none => .fail (.unknownClient client.text)
  | some record =>
    match name.toText with
    | .error e => .fail (.wire e)
    | .ok text =>
      if record.name ≠ text then
        .fail (.unknownClient (client.text ++ " (" ++ Text.quoted text ++ ")"))
      else
        match PublicKey.ofDer key with
        | .ok key => { phase := .issuing client key }
        | .error e => .fail (.crypto e)

theorem act_identify (client : ClientId) (name : Name) (key : Bytes) (v : Vault) :
    act (actIdentify client name key) v = (identified v.clients client name key, v) := by
  have hrecord : Vault.record? client v = .ok (v.clients.find? client) v := rfl
  unfold act actIdentify identified
  rw [bind_run_ok hrecord]
  cases v.clients.find? client with
  | none => rfl
  | some record =>
    cases name.toText with
    | error e => rfl
    | ok text =>
      -- The key is only looked at if the client is known by this name.
      by_cases hname : record.name = text
      · cases PublicKey.ofDer key <;> simp [hname] <;> rfl
      · simp [hname]
        rfl

/-- Storing a file ends the session, with an answer if the file was stored. -/
theorem act_store (client : ClientId) (filename : String) (content : Bytes) (v : Vault) :
    act (actStore client filename content) v =
      (match (storing client.storageId filename content v).1 with
        | .ok _ => { phase := .ended (.ok ()), reply := some .success }
        | .error e => .fail (.storage e),
      (storing client.storageId filename content v).2) := by
  -- The outcome of storing is the one that the event tells.
  have hstore : Vault.store client filename content v =
      match storing client.storageId filename content v with
      | (.ok path, v) => .ok path v
      | (.error e, v) => .error (.storage e) v := by
    unfold Vault.store Vault.registered storing
    cases Registry.store client.storageId filename content v.storage <;> rfl
  unfold act actStore
  rcases h : storing client.storageId filename content v with ⟨outcome, v'⟩
  rw [h] at hstore
  cases outcome with
  | ok path => rw [bind_run_ok hstore]; rfl
  | error e => rw [bind_run_error hstore]

/-- Registering answers with an identity, or refuses and ends the session, or fails. -/
theorem act_register (name : String) (v : Vault) :
    (∃ id, (act (actRegister name) v).1 =
        { phase := .registered, reply := some (.registered id) }) ∨
      (act (actRegister name) v).1 = { phase := .ended (.ok ()), reply := some .refused } ∨
        ∃ e, (act (actRegister name) v).1 = .fail e := by
  unfold act actRegister
  cases h : Vault.register name v with
  | ok id? v' =>
    rw [bind_run_ok h]
    cases id? with
    | none => exact .inr (.inl rfl)
    | some id => exact .inl ⟨id, rfl⟩
  | error e v' =>
    rw [bind_run_error h]
    exact .inr (.inr ⟨e, rfl⟩)

/-- Issuing a session key answers with the drawn key, encrypted under the public key, or fails. -/
theorem act_issue (client : ClientId) (publicKey : PublicKey) (v : Vault) :
    (∃ encrypted entropy,
      (publicKey.encrypt (SessionKey.generate v.entropy).1.bytes entropy).1 = .ok encrypted ∧
        (act (actIssue client publicKey) v).1 =
          { phase := .receiving client (SessionKey.generate v.entropy).1
            reply := some (.sessionKey client encrypted) }) ∨
      ∃ e, (act (actIssue client publicKey) v).1 = .fail e := by
  -- The key is drawn first and encrypted under the public key,
  have hkey : Vault.draw SessionKey.generate v = .ok (SessionKey.generate v.entropy).1
      { v with entropy := (SessionKey.generate v.entropy).2 } := rfl
  have hencrypt (v : Vault) (b : Bytes) : Vault.draw (publicKey.encrypt b) v =
      .ok (publicKey.encrypt b v.entropy).1
        { v with entropy := (publicKey.encrypt b v.entropy).2 } := rfl
  unfold act actIssue
  rw [bind_run_ok hkey, bind_run_ok (hencrypt _ _)]
  cases h : (publicKey.encrypt (SessionKey.generate v.entropy).1.bytes
    (SessionKey.generate v.entropy).2).1 with
  | error e => exact .inr ⟨.crypto e, rfl⟩
  | ok encrypted =>
    generalize { v with entropy := _ } = v₁
    -- and then remembered; only if that works it is sent.
    cases hset : Vault.setKeys client publicKey (SessionKey.generate v.entropy).1 v₁ with
    | ok _ v₂ =>
      refine .inl ⟨encrypted, _, h, ?_⟩
      simp only [bind_run_ok hset]
      rfl
    | error e v₂ =>
      refine .inr ⟨e, ?_⟩
      simp only [bind_run_error hset]

end Session

open Session

namespace Conversation

/-- The answer that is sent with a turn, if it can be. -/
def replies (c : Conversation) (turn : Turn) : List Event :=
  match turn.reply with
  | none => []
  | some body =>
    match ServerMessage.encode { version := c.version, body } with
    | .error _ => []
    | .ok b =>
      match c.outgoing.write b with
      | (.ok _, _) => [.said body]
      | (.error _, _) => []

/-- What a step does. -/
def events (c : Conversation) (v : Vault) : List Event :=
  match c.phase with
  | .ended _ => []
  | phase =>
    match action? phase with
    | some x => (deed? phase v).toList ++ c.replies (act x v).1
    | none =>
      match ClientMessage.decode c.version c.incoming with
      | .ok m _ => .heard m :: c.replies (Session.hear phase m)
      | .error _ _ => []

/-! ## §3 Steps -/

/-- The session waits for a message. -/
def Waits (phase : Phase) : Prop := action? phase = none ∧ ∀ o, phase ≠ .ended o

theorem waits_greeting : Waits .greeting := ⟨rfl, by rintro _ ⟨⟩⟩

theorem waits_registered : Waits .registered := ⟨rfl, by rintro _ ⟨⟩⟩

theorem waits_receiving (client : ClientId) (key : SessionKey) :
    Waits (.receiving client key) := ⟨rfl, by rintro _ ⟨⟩⟩

theorem waits_judging (client : ClientId) (key : SessionKey) (filename : Name) (content : Bytes) :
    Waits (.judging client key filename content) := ⟨rfl, by rintro _ ⟨⟩⟩

variable {c : Conversation} {v : Vault}

theorem step_of_ended {o : Except SessionError Unit} (h : c.phase = .ended o) :
    c.step v = (c, v) ∧ c.events v = [] := by
  constructor
  · unfold step
    rw [h]
  · unfold events
    rw [h]

theorem step_of_action {x : Vaulted Turn} (h : action? c.phase = some x) :
    c.step v = (c.take (act x v).1, (act x v).2) ∧
      c.events v = (deed? c.phase v).toList ++ c.replies (act x v).1 := by
  unfold step events
  cases hp : c.phase with
  | ended o =>
    rw [hp] at h
    cases h
  | _ =>
    rw [hp] at h
    simp only [h, and_self]

theorem step_of_waits (h : Waits c.phase) : c.step v = (c.hear, v) ∧
    c.events v = match ClientMessage.decode c.version c.incoming with
      | .ok m _ => .heard m :: c.replies (Session.hear c.phase m)
      | .error _ _ => [] := by
  obtain ⟨hnone, hopen⟩ := h
  unfold step events
  cases hp : c.phase with
  | ended o => exact absurd hp (hopen o)
  | _ =>
    rw [hp] at hnone
    simp only [hnone, and_self]

/-- A phase has something to do, or waits, or is the end. -/
theorem phase_cases (phase : Phase) :
    (∃ x, action? phase = some x) ∨ Waits phase ∨ ∃ o, phase = .ended o := by
  cases phase with
  | ended o => exact .inr (.inr ⟨o, rfl⟩)
  | greeting | registered | receiving _ _ | judging _ _ _ _ =>
    exact .inr (.inl ⟨rfl, fun _ => nofun⟩)
  | registering _ | identifying _ _ _ | issuing _ _ | storing _ _ _ => exact .inl ⟨_, rfl⟩

/-! ## §4 The vault -/

theorem effects_replies (turn : Turn) (v : Vault) : effects (c.replies turn) v = v := by
  unfold replies
  split
  · rfl
  · split
    · rfl
    · split <;> rfl

/-- The events of a step account for what it does to the vault. -/
theorem step_effects (c : Conversation) (v : Vault) :
    (c.step v).2 = effects (c.events v) v := by
  rcases phase_cases c.phase with ⟨x, hx⟩ | hwaits | ⟨o, ho⟩
  · obtain ⟨hstep, hevents⟩ := step_of_action (v := v) hx
    rw [hstep, hevents, effects, List.foldl_append, ← effects, ← effects, effects_replies]
    -- The event of a phase is the operation on the vault that the phase makes.
    cases hp : c.phase with
    | registering name => rw [hp] at hx; cases hx; rfl
    | identifying client name key => rw [hp] at hx; cases hx; rw [act_identify]; rfl
    | issuing client key => rw [hp] at hx; cases hx; rfl
    | storing client filename content => rw [hp] at hx; cases hx; rw [act_store]; rfl
    | _ => rw [hp] at hx; cases hx
  · obtain ⟨hstep, hevents⟩ := step_of_waits (v := v) hwaits
    rw [hstep, hevents]
    cases ClientMessage.decode c.version c.incoming with
    | ok m r => exact (effects_replies ..).symm
    | error e r => rfl
  · obtain ⟨hstep, hevents⟩ := step_of_ended (v := v) ho
    rw [hstep, hevents]
    rfl

/-! ## §5 The connection -/

/-- The answers of a log. -/
def replied (L : List Event) : List ServerBody :=
  L.filterMap fun
    | .said body => some body
    | _ => none

theorem replied_append (L M : List Event) : replied (L ++ M) = replied L ++ replied M :=
  List.filterMap_append

theorem replied_deed (phase : Phase) (v : Vault) : replied (deed? phase v).toList = [] := by
  cases phase <;> rfl

/-- The answers of a log as messages of a version. -/
def messages (version : UInt8) (L : List Event) : List ServerMessage :=
  (replied L).map fun body => { version, body }

/-- The bytes written on a connection that takes everything are those of the logged answers. -/
structure Connected (c : Conversation) (L : List Event) : Prop where
  limit : c.outgoing.limit = none
  wrote : Format.serverMessages.Wrote c.version (messages c.version L) ByteArray.empty
    c.outgoing.written

/-- The next phase is the one of the turn, and its answer was sent; or the answer cannot be
encoded, and the conversation ends. -/
def Took (turn : Turn) (phase : Phase) (L : List Event) : Prop :=
  (phase = turn.phase ∧ L = turn.reply.toList.map .said) ∨
    ∃ body e, turn.reply = some body ∧ phase = .ended (.error (.wire e)) ∧ L = []

/-- A turn without an answer is simply taken. -/
theorem Took.silent {turn : Turn} {phase : Phase} {L : List Event} (h : Took turn phase L)
    (hreply : turn.reply = none) : phase = turn.phase ∧ L = [] := by
  rcases h with ⟨hphase, hL⟩ | ⟨body, e, hbody, -, -⟩
  · rw [hreply] at hL
    exact ⟨hphase, hL⟩
  · rw [hreply] at hbody
    cases hbody

theorem take_spec {c : Conversation} (hlimit : c.outgoing.limit = none) (turn : Turn) :
    Took turn (c.take turn).phase (c.replies turn) ∧ (c.take turn).version = c.version ∧
      (c.take turn).outgoing.limit = none ∧
        Format.serverMessages.Wrote c.version (messages c.version (c.replies turn))
          c.outgoing.written (c.take turn).outgoing.written := by
  cases hreply : turn.reply with
  | none =>
    have htake : c.take turn = { c with phase := turn.phase } := by simp only [take, hreply]
    have hreplies : c.replies turn = [] := by simp only [replies, hreply]
    rw [htake, hreplies]
    exact ⟨.inl ⟨rfl, by rw [hreply]; rfl⟩, rfl, hlimit, .nil _⟩
  | some body =>
    cases henc : ServerMessage.encode { version := c.version, body } with
    | error e =>
      have htake : c.take turn = { c with phase := .ended (.error (.wire e)) } := by
        simp only [take, hreply, henc]
      have hreplies : c.replies turn = [] := by simp only [replies, hreply, henc]
      rw [htake, hreplies]
      exact ⟨.inr ⟨body, e, hreply, rfl, rfl⟩, rfl, hlimit, .nil _⟩
    | ok b =>
      have htake : c.take turn = { c with
          phase := turn.phase
          outgoing := { c.outgoing with written := c.outgoing.written ++ b } } := by
        simp only [take, hreply, henc, Sink.write_of_unlimited hlimit]
      have hreplies : c.replies turn = [.said body] := by
        simp only [replies, hreply, henc, Sink.write_of_unlimited hlimit]
      rw [htake, hreplies]
      exact ⟨.inl ⟨rfl, by rw [hreply]; rfl⟩, rfl, hlimit, .one henc rfl⟩

theorem Connected.take {c : Conversation} {L M : List Event} (h : Connected c L)
    (c' : Conversation) (hversion : c'.version = c.version) (houtgoing : c'.outgoing = c.outgoing)
    (hM : replied M = []) (turn : Turn) :
    Connected (c'.take turn) (L ++ M ++ c'.replies turn) := by
  obtain ⟨-, hv, hlimit, hwrote⟩ := take_spec (c := c') (houtgoing ▸ h.limit) turn
  refine ⟨hlimit, ?_⟩
  -- The turn is taken on a connection that wrote the same bytes before.
  rw [hversion] at hv hwrote
  rw [houtgoing] at hwrote
  rw [hv, messages, replied_append, replied_append, hM, List.append_nil, List.map_append]
  exact h.wrote.append hwrote

/-- The events of a step account for what it writes. -/
theorem step_connected {c : Conversation} {L : List Event} (h : Connected c L) (v : Vault) :
    Connected (c.step v).1 (L ++ c.events v) := by
  rcases phase_cases c.phase with ⟨x, hx⟩ | hwaits | ⟨o, ho⟩
  -- What is done with the vault is no answer; only the turn after it sends one.
  · obtain ⟨hstep, hevents⟩ := step_of_action (v := v) hx
    rw [hstep, hevents, ← List.append_assoc]
    exact h.take c rfl rfl (replied_deed c.phase v) _
  · obtain ⟨hstep, hevents⟩ := step_of_waits (v := v) hwaits
    rw [hstep, hevents]
    unfold Conversation.hear
    cases ClientMessage.decode c.version c.incoming with
    | ok m r =>
      have hM : replied [.heard m] = [] := rfl
      have htake := h.take { c with incoming := r } rfl rfl hM (Session.hear c.phase m)
      rwa [List.append_assoc] at htake
    | error e r =>
      rw [List.append_nil]
      exact ⟨h.limit, h.wrote⟩
  · obtain ⟨hstep, hevents⟩ := step_of_ended (v := v) ho
    rw [hstep, hevents, List.append_nil]
    exact h

end Conversation

end BackupVault
