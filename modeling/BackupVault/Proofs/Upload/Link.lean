import BackupVault.Proofs.Upload.EngineRun
import BackupVault.Proofs.Upload.SessionLog
import BackupVault.Proofs.Wire.Pipe

/-!
# A client linked to a session

An upload engine and a session at the two ends of a connection.  The bytes that one of them has
written are carried to the other in portions of any size, and each goes on as soon as it can, in
any order.  The link settles where nothing is left to be done.

At every moment of an upload only one of the two has something to do, or a message to wait for, so
that the order of steps makes no difference to where the link settles.

## Overview

- `Link`, `Link.Step`: the two ends, and one step of either of them or of the connection
- `Link.Settles`: whatever steps are taken, they come to an end where something holds
- `Link.Stage`, `Link.Stands`: how far the two ends got
- `Link.settles_heard`, `settles_answered`, `settles_acted`, `settles_done`: from stage to stage
-/

set_option autoImplicit false

namespace BackupVault

/-! ## §1 Links -/

/-- A client and a session at the ends of one connection, with the vault of the session. -/
structure Link where
  run : Engine.Run
  session : Conversation
  vault : Vault

namespace Link

/-- All bytes that the client has written. -/
def sent (s : Link) : Bytes := s.run.channel.outgoing.written

/-- All bytes that the session has written. -/
def answered (s : Link) : Bytes := s.session.outgoing.written

/-- The next bytes of the client come in at the session. -/
def carryUp (s : Link) (n : Nat) : Link :=
  let there := s.session.incoming.source.bytes.size
  { s with session := s.session.receive (s.sent.extract there (there + n)) }

/-- The next bytes of the session come in at the client. -/
def carryDown (s : Link) (n : Nat) : Link :=
  let there := s.run.channel.incoming.source.bytes.size
  let channel := s.run.channel.arrive { bytes := s.answered.extract there (there + n) }
  { s with run := { s.run with channel } }

/-- One step: some bytes are carried to one of the ends, or one of them goes on, where it can do so
with the bytes that it has. -/
inductive Step : Link → Link → Prop where
  | up (s : Link) (n : Nat) (hn : 0 < n)
      (h : s.session.incoming.source.bytes.size + n ≤ s.sent.size) : Step s (s.carryUp n)
  | down (s : Link) (n : Nat) (hn : 0 < n)
      (h : s.run.channel.incoming.source.bytes.size + n ≤ s.answered.size) :
      Step s (s.carryDown n)
  | client (s : Link) (hopen : s.run.outcome? = none)
      (hwhole : s.run.channel.isWhole ByteArray.empty = true) :
      Step s { s with run := s.run.step }
  | server (s : Link) (hready : s.session.isReady = true) :
      Step s { s with session := (s.session.step s.vault).1, vault := (s.session.step s.vault).2 }

/-- Whatever steps are taken, they come to an end, and only where something holds. -/
inductive Settles (P : Link → Prop) : Link → Prop where
  | intro {s : Link} (stop : (∀ s', ¬ Step s s') → P s) (go : ∀ s', Step s s' → Settles P s') :
      Settles P s

/-- The link at the start of an upload: the client makes its first moves, and the session waits. -/
def start (job : Engine.Job) (id : Option ClientId) (version : UInt8) (vault : Vault) : Link where
  run := Engine.Run.begin job id { version, incoming := Reader.ofBytes ByteArray.empty }
  session := { version, incoming := Reader.ofBytes ByteArray.empty }
  vault := vault

/-! ## §2 Stages -/

/-- How far the two ends got, and what is pending between them. -/
structure Stage where
  id : Option ClientId
  wait : Engine.Wait
  phase : Session.Phase
  vault : Vault
  /-- What the session has not taken yet. -/
  upward : Bytes := ByteArray.empty
  /-- What the client has not taken yet. -/
  downward : Bytes := ByteArray.empty

/-- The link stands at a stage of the upload of a job. -/
structure Stands (job : Engine.Job) (version : UInt8) (g : Stage) (s : Link) : Prop where
  job : s.run.job = job
  id : s.run.id = g.id
  wait : s.run.wait = g.wait
  phase : s.session.phase = g.phase
  vault : s.vault = g.vault
  clientVersion : s.run.channel.version = version
  serverVersion : s.session.version = version
  clientUnlimited : s.run.channel.outgoing.limit = none
  serverUnlimited : s.session.outgoing.limit = none
  up : Piped s.sent s.session.incoming
  upward : pending s.sent s.session.incoming = g.upward
  down : Piped s.answered s.run.channel.incoming
  downward : pending s.answered s.run.channel.incoming = g.downward

/-- The client waits for a message. -/
def Listens (wait : Engine.Wait) : Prop := ∀ o, wait ≠ .nothing o

/-- The bytes of the answer that is given with a turn; none, if there is no answer. -/
def Answers (version : UInt8) : Option ServerBody → Bytes → Prop
  | none, d => d = ByteArray.empty
  | some body, d => ServerMessage.encode { version, body } = .ok d

/-- The bytes of the messages that the client sends when it makes some moves. -/
def Speaks (version : UInt8) (moves : List Engine.Move) (b : Bytes) : Prop :=
  ∃ bs, (Engine.sends version moves).mapM ClientMessage.encode = .ok bs ∧ Bytes.join bs = b

theorem speaks_nothing {version : UInt8} {moves : List Engine.Move}
    (h : Engine.sends version moves = []) : Speaks version moves ByteArray.empty :=
  ⟨[], by rw [h]; rfl, rfl⟩

theorem speaks_one {version : UInt8} {moves : List Engine.Move} {m : ClientMessage} {b : Bytes}
    (h : Engine.sends version moves = [m]) (hb : m.encode = .ok b) : Speaks version moves b := by
  refine ⟨[b], ?_, ?_⟩
  · rw [h]
    exact mapM_cons_eq_ok.mpr ⟨b, [], hb, rfl, rfl⟩
  · rw [Bytes.join_cons, Bytes.join_nil, ByteArray.append_empty]

/-! ## §3 The two ends -/

/-- The identity that is known after some moves. -/
def adopted (id : Option ClientId) : List Engine.Move → Option ClientId
  | [] => id
  | .adopt id' :: rest => adopted (some id') rest
  | _ :: rest => adopted id rest

/-- Moves whose messages can be encoded are all made. -/
theorem take_of_speaks {r : Engine.Run} (hlimit : r.channel.outgoing.limit = none)
    (moves : List Engine.Move) (wait : Engine.Wait) {b : Bytes}
    (h : Speaks r.channel.version moves b) :
    ∃ state, r.take moves wait = { r with
      state, wait, id := adopted r.id moves
      channel := { r.channel with outgoing := { r.channel.outgoing with
        written := r.channel.outgoing.written ++ b } } } := by
  obtain ⟨bs, hbs, rfl⟩ := h
  induction moves generalizing r bs with
  | nil =>
    obtain rfl := mapM_nil_eq_ok.mp hbs
    exact ⟨r.state, by rw [Bytes.join_nil, ByteArray.append_empty]; rfl⟩
  | cons move moves ih =>
    cases move with
    | enter state => exact ih (r := { r with state }) hlimit bs hbs
    | adopt id => exact ih (r := { r with id := some id }) hlimit bs hbs
    | send sender body =>
      obtain ⟨b, cs, hb, hcs, rfl⟩ := mapM_cons_eq_ok.mp hbs
      -- The first message is written, and the others after it.
      let c : Channel :=
        { r.channel with outgoing := { r.channel.outgoing with
            written := r.channel.outgoing.written ++ b } }
      have htake : r.take (.send sender body :: moves) wait =
          { r with channel := c }.take moves wait := by
        simp only [Engine.Run.take, Channel.send, hb, Sink.write_of_unlimited hlimit, c]
      obtain ⟨state, hrest⟩ := ih (r := { r with channel := c }) hlimit cs hcs
      refine ⟨state, ?_⟩
      rw [htake, hrest, Bytes.join_cons]
      simp only [c, ByteArray.append_assoc]
      rfl

/-- A turn whose answer can be encoded is taken, and the answer is sent. -/
theorem take_of_answers {c : Conversation} (hlimit : c.outgoing.limit = none)
    {turn : Session.Turn} {d : Bytes} (h : Answers c.version turn.reply d) :
    c.take turn = { c with
      phase := turn.phase
      outgoing := { c.outgoing with written := c.outgoing.written ++ d } } := by
  unfold Conversation.take
  cases hreply : turn.reply with
  | none =>
    rw [hreply] at h
    obtain rfl : d = ByteArray.empty := h
    rw [ByteArray.append_empty]
  | some body =>
    rw [hreply] at h
    have henc : ServerMessage.encode { version := c.version, body } = .ok d := h
    simp only [henc, Sink.write_of_unlimited hlimit]

theorem arrive_nothing {c : Channel} (h : c.incoming.source.ending = .closed) :
    c.arrive { bytes := ByteArray.empty } = c := by
  obtain ⟨version, ⟨source, consumed⟩, outgoing⟩ := c
  obtain ⟨bytes, taken, ending, cuts, reads⟩ := source
  cases h
  simp [Channel.arrive, Source.arrive, Source.append]

theorem isReady_of_waits {c : Conversation} (h : Conversation.Waits c.phase) :
    c.isReady = !c.isStarving := by
  obtain ⟨hnone, hopen⟩ := h
  unfold Conversation.isReady
  -- In a phase that waits there is nothing to do, so that only the bytes at hand count.
  cases hp : c.phase with
  | ended o => exact absurd hp (hopen o)
  | _ =>
    rw [hp] at hnone
    simp only [hnone, Option.isSome_none, Bool.false_or]

theorem isReady_of_action {c : Conversation} {x : Vaulted Session.Turn}
    (h : Session.action? c.phase = some x) : c.isReady = true := by
  unfold Conversation.isReady
  cases hp : c.phase with
  | ended o =>
    rw [hp] at h
    cases h
  | _ =>
    rw [hp] at h
    simp only [h, Option.isSome_some, Bool.true_or]

theorem isReady_of_ended {c : Conversation} {o : Except SessionError Unit}
    (h : c.phase = .ended o) : c.isReady = false := by
  unfold Conversation.isReady
  rw [h]

/-! ## §4 Steps at a stage -/

namespace Stands

variable {job : Engine.Job} {version : UInt8} {g : Stage} {s : Link}

theorem carryUp (h : Stands job version g s) {n : Nat}
    (hn : s.session.incoming.source.bytes.size + n ≤ s.sent.size) :
    Stands job version g (s.carryUp n) ∧
      (onWay (s.carryUp n).sent (s.carryUp n).session.incoming).size + n =
        (onWay s.sent s.session.incoming).size := by
  obtain ⟨hup, hpending, hsize⟩ :=
    h.up.carry (s.carryUp n).session.incoming hn rfl rfl h.up.ending
  exact ⟨{ h with up := hup, upward := hpending.trans h.upward }, hsize⟩

theorem carryDown (h : Stands job version g s) {n : Nat}
    (hn : s.run.channel.incoming.source.bytes.size + n ≤ s.answered.size) :
    Stands job version g (s.carryDown n) ∧
      (onWay (s.carryDown n).answered (s.carryDown n).run.channel.incoming).size + n =
        (onWay s.answered s.run.channel.incoming).size := by
  obtain ⟨hdown, hpending, hsize⟩ :=
    h.down.carry (s.carryDown n).run.channel.incoming hn rfl rfl rfl
  exact ⟨{ h with down := hdown, downward := hpending.trans h.downward }, hsize⟩

theorem not_up (h : Stands job version g s) (hup : g.upward = ByteArray.empty) {n : Nat}
    (hn : 0 < n) : ¬ s.session.incoming.source.bytes.size + n ≤ s.sent.size := by
  have hsize := h.up.size_onWay
  -- What is on the way is part of what is pending.
  have hnone := (ByteArray.append_eq_empty_iff.mp (h.upward.trans hup)).2
  rw [hnone, ByteArray.size_empty] at hsize
  omega

theorem not_down (h : Stands job version g s) (hdown : g.downward = ByteArray.empty) {n : Nat}
    (hn : 0 < n) : ¬ s.run.channel.incoming.source.bytes.size + n ≤ s.answered.size := by
  have hsize := h.down.size_onWay
  have hnone := (ByteArray.append_eq_empty_iff.mp (h.downward.trans hdown)).2
  rw [hnone, ByteArray.size_empty] at hsize
  omega

/-- A client whose message has not come in as a whole waits. -/
theorem not_whole (h : Stands job version g s)
    (hshort : ∃ n r', ServerMessage.decode version s.run.channel.incoming =
      .error (.shortRead n) r') : s.run.channel.isWhole ByteArray.empty = false := by
  obtain ⟨n, r', hshort⟩ := hshort
  unfold Channel.isWhole
  rw [arrive_nothing h.down.ending, h.clientVersion, hshort]

theorem client_waits (h : Stands job version g s) (hdown : g.downward = ByteArray.empty) :
    s.run.channel.isWhole ByteArray.empty = false :=
  h.not_whole (ServerMessage.short_of_nothing h.down (h.downward.trans hdown) version)

/-- A session whose message has not come in as a whole waits. -/
theorem not_ready (h : Stands job version g s) (hwaits : Conversation.Waits g.phase)
    (hshort : ∃ n r', ClientMessage.decode version s.session.incoming =
      .error (.shortRead n) r') : s.session.isReady = false := by
  obtain ⟨n, r', hshort⟩ := hshort
  rw [isReady_of_waits (h.phase ▸ hwaits), Conversation.isStarving, h.serverVersion, hshort]
  rfl

theorem server_waits (h : Stands job version g s) (hup : g.upward = ByteArray.empty)
    (hphase : Conversation.Waits g.phase ∨ ∃ o, g.phase = .ended o) :
    s.session.isReady = false := by
  rcases hphase with hwaits | ⟨o, ho⟩
  · exact h.not_ready hwaits
      (ClientMessage.short_of_nothing h.up (h.upward.trans hup) version)
  · exact isReady_of_ended (h.phase.trans ho)

/-- The session takes a turn, and its answer is pending from then on. -/
theorem take (h : Stands job version g s) {incoming : Reader} (vault : Vault)
    {turn : Session.Turn} {d up : Bytes} (hanswers : Answers version turn.reply d)
    (hup : Piped s.sent incoming) (hupward : pending s.sent incoming = up) :
    Stands job version
      { g with phase := turn.phase, vault, upward := up, downward := g.downward ++ d }
      { s with session := { s.session with incoming }.take turn, vault } := by
  obtain ⟨hdown, hpending⟩ := h.down.write d
  rw [take_of_answers (c := { s.session with incoming }) h.serverUnlimited
    (h.serverVersion.symm ▸ hanswers)]
  exact { h with
    phase := rfl
    vault := rfl
    up := hup
    upward := hupward
    down := hdown
    downward := by
      rw [← h.downward]
      exact hpending }

/-- A message that has come in as a whole is heard. -/
theorem server_hears (h : Stands job version g s) (hwaits : Conversation.Waits g.phase)
    {m : ClientMessage} (hm : m.encode = .ok g.upward) (hv : m.version = version)
    (hthere : onWay s.sent s.session.incoming = ByteArray.empty) {d : Bytes}
    (hanswers : Answers version (Session.hear g.phase m).reply d) :
    s.session.isReady = true ∧ Stands job version
      { g with
        phase := (Session.hear g.phase m).phase
        upward := ByteArray.empty
        downward := g.downward ++ d }
      { s with session := (s.session.step s.vault).1, vault := (s.session.step s.vault).2 } := by
  -- The message is all there, so that it is decoded and nothing is left of it.
  have htakes := ClientMessage.takes_of_encode hm
  rw [hv] at htakes
  obtain ⟨incoming, hdecode, hup, hnone⟩ := h.up.whole htakes h.upward hthere
  rw [← h.serverVersion] at hdecode
  have hphase : Conversation.Waits s.session.phase := h.phase ▸ hwaits
  constructor
  · rw [isReady_of_waits hphase, Conversation.isStarving, hdecode]
    rfl
  -- The session is in the phase of the stage and takes the turn after the message.
  · have hstep : s.session.step s.vault =
        ({ s.session with incoming }.take (Session.hear g.phase m), s.vault) := by
      rw [(Conversation.step_of_waits hphase).1, ← h.phase]
      simp only [Conversation.hear, hdecode]
    rw [hstep]
    have hnext := h.take s.vault hanswers hup hnone
    rwa [h.vault] at hnext ⊢

/-- What the session has to do is done. -/
theorem server_acts (h : Stands job version g s) {x : Vaulted Session.Turn}
    (hx : Session.action? g.phase = some x) {turn : Session.Turn} {vault : Vault}
    (hrun : x g.vault = .ok turn vault) {d : Bytes} (hanswers : Answers version turn.reply d) :
    s.session.isReady = true ∧ Stands job version
      { g with phase := turn.phase, vault, downward := g.downward ++ d }
      { s with session := (s.session.step s.vault).1, vault := (s.session.step s.vault).2 } := by
  have hx' : Session.action? s.session.phase = some x := h.phase ▸ hx
  refine ⟨isReady_of_action hx', ?_⟩
  -- The vault of the link is that of the stage.
  have hstep : s.session.step s.vault = (s.session.take turn, vault) := by
    rw [(Conversation.step_of_action hx').1, Session.act, h.vault, hrun]
  rw [hstep]
  have hnext := h.take vault hanswers h.up h.upward
  exact hnext

/-- An answer that has come in as a whole is heard, and what the client says then is pending. -/
theorem client_hears (h : Stands job version g s) (hlistens : Listens g.wait) {body : ServerBody}
    (hbody : ServerMessage.encode { version, body } = .ok g.downward)
    (hthere : onWay s.answered s.run.channel.incoming = ByteArray.empty) {b : Bytes}
    (hspeaks : Speaks version (Engine.hear job g.wait body).moves b) :
    s.run.outcome? = none ∧ s.run.channel.isWhole ByteArray.empty = true ∧ Stands job version
      { g with
        id := adopted g.id (Engine.hear job g.wait body).moves
        wait := (Engine.hear job g.wait body).wait
        upward := g.upward ++ b
        downward := ByteArray.empty }
      { s with run := s.run.step } := by
  obtain ⟨incoming, hdecode, hdown, hnone⟩ :=
    h.down.whole (ServerMessage.takes_of_encode hbody) h.downward hthere
  -- A client that listens is not done.
  have hopen : s.run.outcome? = none := by
    unfold Engine.Run.outcome?
    rw [h.wait]
    cases hw : g.wait with
    | nothing o => exact absurd hw (hlistens o)
    | _ => rfl
  have hreceive : Channel.receive s.run.channel =
      .ok body { s.run.channel with incoming } := by
    simp only [Channel.receive, h.clientVersion, hdecode]
  refine ⟨hopen, ?_, ?_⟩
  · unfold Channel.isWhole
    rw [arrive_nothing h.down.ending, h.clientVersion, hdecode]
  -- It hears the message that was decoded.
  · have hstep : s.run.step = (s.run.drained incoming).take
        (Engine.hear s.run.job s.run.wait body).moves (Engine.hear s.run.job s.run.wait body).wait :=
      Engine.step_of_heard hopen hreceive
    rw [h.job, h.wait] at hstep
    obtain ⟨state, htake⟩ := take_of_speaks (r := s.run.drained incoming) h.clientUnlimited
      (Engine.hear job g.wait body).moves (Engine.hear job g.wait body).wait
      (h.clientVersion.symm ▸ hspeaks)
    obtain ⟨hup, hpending⟩ := h.up.write b
    rw [hstep, htake]
    exact { h with
      id := by rw [← h.id]; rfl
      wait := rfl
      up := hup
      upward := by rw [← h.upward]; exact hpending
      down := hdown
      downward := hnone }

/-! ## §5 From stage to stage -/

variable {P : Link → Prop}

/-- While a message of the client is pending, bytes of it can come in and nothing else happens,
until the session hears it. -/
theorem settles_heard (h : Stands job version g s) (hwaits : Conversation.Waits g.phase)
    (hdown : g.downward = ByteArray.empty) {m : ClientMessage} (hm : m.encode = .ok g.upward)
    (hv : m.version = version) {d : Bytes}
    (hanswers : Answers version (Session.hear g.phase m).reply d)
    (hnext : ∀ s, Stands job version
      { g with
        phase := (Session.hear g.phase m).phase, upward := ByteArray.empty, downward := d } s →
      Settles P s) : Settles P s := by
  -- By induction on the number of bytes on the way to the session.
  generalize hk : (onWay s.sent s.session.incoming).size = k
  induction k using Nat.strongRecOn generalizing s with
  | ind k ih =>
    have hhear := h.server_hears hwaits hm hv (d := d)
    rw [hdown, ByteArray.empty_append] at hhear
    by_cases hk0 : k = 0
    -- All of the message is there: the only step is that the session hears it.
    · obtain ⟨hready, hheard⟩ := hhear (ByteArray.size_eq_zero_iff.mp (hk.trans hk0)) hanswers
      constructor
      · intro hstop
        exact absurd (.server s hready) (hstop _)
      · intro s' hstep
        cases hstep with
        | up n hn hle => have := h.up.size_onWay; omega
        | down n hn hle => exact absurd hle (h.not_down hdown hn)
        | client hopen hwhole =>
          rw [h.client_waits hdown] at hwhole
          cases hwhole
        | server => exact hnext _ hheard
    -- Part of it is missing: the only step is that more of it comes in.
    · have hnot : s.session.isReady = false := by
        have htakes := ClientMessage.takes_of_encode hm
        rw [hv] at htakes
        exact h.not_ready hwaits (h.up.short htakes h.upward.symm (by omega))
      have hsize := h.up.size_onWay
      constructor
      · intro hstop
        exact absurd (.up s 1 Nat.one_pos (by omega)) (hstop _)
      · intro s' hstep
        cases hstep with
        | up n hn hle =>
          obtain ⟨hcarried, hless⟩ := h.carryUp hle
          exact ih _ (by omega) hcarried rfl
        | down n hn hle => exact absurd hle (h.not_down hdown hn)
        | client hopen hwhole =>
          rw [h.client_waits hdown] at hwhole
          cases hwhole
        | server hready =>
          rw [hnot] at hready
          cases hready

/-- While an answer is pending, bytes of it can come in and nothing else happens, until the client
hears it. -/
theorem settles_answered (h : Stands job version g s)
    (hphase : Conversation.Waits g.phase ∨ ∃ o, g.phase = .ended o)
    (hup : g.upward = ByteArray.empty) (hlistens : Listens g.wait) {body : ServerBody}
    (hbody : ServerMessage.encode { version, body } = .ok g.downward) {b : Bytes}
    (hspeaks : Speaks version (Engine.hear job g.wait body).moves b)
    (hnext : ∀ s, Stands job version
      { g with
        id := adopted g.id (Engine.hear job g.wait body).moves
        wait := (Engine.hear job g.wait body).wait
        upward := b, downward := ByteArray.empty } s → Settles P s) : Settles P s := by
  -- By induction on the number of bytes on the way to the client.
  generalize hk : (onWay s.answered s.run.channel.incoming).size = k
  induction k using Nat.strongRecOn generalizing s with
  | ind k ih =>
    have hserver := h.server_waits hup hphase
    have hhear := h.client_hears hlistens hbody (b := b)
    rw [hup, ByteArray.empty_append] at hhear
    have hsize := h.down.size_onWay
    by_cases hk0 : k = 0
    -- All of the answer is there: the only step is that the client hears it.
    · obtain ⟨hopen, hwhole, hheard⟩ :=
        hhear (ByteArray.size_eq_zero_iff.mp (hk.trans hk0)) hspeaks
      constructor
      · intro hstop
        exact absurd (.client s hopen hwhole) (hstop _)
      · intro s' hstep
        cases hstep with
        | up n hn hle => exact absurd hle (h.not_up hup hn)
        | down n hn hle => omega
        | client => exact hnext _ hheard
        | server hready =>
          rw [hserver] at hready
          cases hready
    -- Part of it is missing: the only step is that more of it comes in.
    · have hnot : s.run.channel.isWhole ByteArray.empty = false :=
        h.not_whole (h.down.short (ServerMessage.takes_of_encode hbody) h.downward.symm (by omega))
      constructor
      · intro hstop
        exact absurd (.down s 1 Nat.one_pos (by omega)) (hstop _)
      · intro s' hstep
        cases hstep with
        | up n hn hle => exact absurd hle (h.not_up hup hn)
        | down n hn hle =>
          obtain ⟨hcarried, hless⟩ := h.carryDown hle
          exact ih _ (by omega) hcarried rfl
        | client hopen hwhole =>
          rw [hnot] at hwhole
          cases hwhole
        | server hready =>
          rw [hserver] at hready
          cases hready

/-- While nothing is pending and the session has something to do, that is what happens. -/
theorem settles_acted (h : Stands job version g s) (hup : g.upward = ByteArray.empty)
    (hdown : g.downward = ByteArray.empty) {x : Vaulted Session.Turn}
    (hx : Session.action? g.phase = some x) {turn : Session.Turn} {vault : Vault}
    (hrun : x g.vault = .ok turn vault) {d : Bytes}
    (hanswers : Answers version turn.reply d)
    (hnext : ∀ s, Stands job version { g with phase := turn.phase, vault, downward := d } s →
      Settles P s) : Settles P s := by
  obtain ⟨hready, hacted⟩ := h.server_acts hx hrun hanswers
  rw [hdown, ByteArray.empty_append] at hacted
  constructor
  · intro hstop
    exact absurd (.server s hready) (hstop _)
  · intro s' hstep
    -- Nothing can be carried, and the client waits.
    cases hstep with
    | up n hn hle => exact absurd hle (h.not_up hup hn)
    | down n hn hle => exact absurd hle (h.not_down hdown hn)
    | client hopen hwhole =>
      rw [h.client_waits hdown] at hwhole
      cases hwhole
    | server => exact hnext _ hacted

/-- Where both ends are done and nothing is pending, the link has settled. -/
theorem settles_done (h : Stands job version g s) {o : Except ClientError UploadOutcome}
    (hwait : g.wait = .nothing o) {o' : Except SessionError Unit} (hphase : g.phase = .ended o')
    (hup : g.upward = ByteArray.empty) (hdown : g.downward = ByteArray.empty) (hP : P s) :
    Settles P s := by
  constructor
  · exact fun _ => hP
  · intro s' hstep
    cases hstep with
    | up n hn hle => exact absurd hle (h.not_up hup hn)
    | down n hn hle => exact absurd hle (h.not_down hdown hn)
    | client hopen hwhole =>
      rw [Engine.Run.outcome?, h.wait, hwait] at hopen
      cases hopen
    | server hready =>
      rw [h.server_waits hup (.inr ⟨o', hphase⟩)] at hready
      cases hready

end Stands

/-- At the start the client has made its first moves, and what it says is pending. -/
theorem stands_start (job : Engine.Job) (id : Option ClientId) (version : UInt8) (vault : Vault)
    {b : Bytes} (hspeaks : Speaks version (Engine.start job id).moves b) :
    Stands job version
      { id := adopted id (Engine.start job id).moves
        wait := (Engine.start job id).wait
        phase := .greeting
        vault
        upward := b }
      (start job id version vault) := by
  let channel : Channel := { version, incoming := Reader.ofBytes ByteArray.empty }
  obtain ⟨state, htake⟩ := take_of_speaks
    (r := { job, channel, id, wait := (Engine.start job id).wait }) rfl
    (Engine.start job id).moves (Engine.start job id).wait hspeaks
  have hbegin : Engine.Run.begin job id channel = _ := htake
  -- Nothing has come in at the session yet, so that all of it is on the way.
  obtain ⟨hpiped, hpending⟩ := Piped.start.1.write b
  rw [Piped.start.2, ByteArray.empty_append] at hpending
  rw [start, hbegin]
  exact {
    job := rfl
    id := rfl
    wait := rfl
    phase := rfl
    vault := rfl
    clientVersion := rfl
    serverVersion := rfl
    clientUnlimited := rfl
    serverUnlimited := rfl
    up := hpiped
    upward := hpending
    down := Piped.start.1
    downward := Piped.start.2 }

end Link

end BackupVault
