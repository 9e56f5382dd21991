import BackupVault.Proofs.Wire.Written
import BackupVault.Upload.Engine

/-!
# Runs of the upload engine

A run is observed at the client's end of the connection: the messages that the engine says, which
are there in the bytes that it has written, and the messages that it hears.  Whatever the other
side sends, and whenever, the engine hears a bounded number of messages before its upload is over.

## Overview

- `Engine.Event`, `Engine.Observed`: a run with what was said and heard in it
- `Engine.Run.Says`: a run before and after it writes some messages
- `Engine.take_spec`, `Engine.step_spec`: what moves write, and what a step is
- `Engine.finish_observed`, `Engine.converse_observed`: every run ends, and can be observed
-/

set_option autoImplicit false

namespace BackupVault.Engine

/-! ## §1 Events -/

/-- Something that happens at the client's end of a connection. -/
inductive Event where
  | said (m : ClientMessage)
  | heard (body : ServerBody)

def Event.message? : Event → Option ClientMessage
  | said m => some m
  | heard _ => none

/-- The messages said, in order. -/
def said (T : List Event) : List ClientMessage := T.filterMap Event.message?

@[simp]
theorem said_append (T U : List Event) : said (T ++ U) = said T ++ said U :=
  List.filterMap_append

@[simp]
theorem said_nil : said [] = [] := rfl

@[simp]
theorem said_heard (body : ServerBody) (T : List Event) : said (.heard body :: T) = said T := rfl

@[simp]
theorem said_said (m : ClientMessage) (T : List Event) : said (.said m :: T) = m :: said T := rfl

@[simp]
theorem said_map (ms : List ClientMessage) : said (ms.map .said) = ms := by
  induction ms with
  | nil => rfl
  | cons m ms ih => rw [List.map_cons, said_said, ih]

/-- From the first channel to the second, these messages were written. -/
def Wrote (c : Channel) (ms : List ClientMessage) (c' : Channel) : Prop :=
  Format.clientMessages.Wrote c.version ms c.outgoing.written c'.outgoing.written

/-- A run of a job from its beginning on some channel, with what was said and heard in it.  The
messages said are those whose bytes were written; the message heard is the one that was decoded.
Bytes of the server arrive at any time, and its stream ends at any time and in any way. -/
inductive Observed (job : Job) (id : Option ClientId) (channel : Channel) :
    List Event → Run → Prop where
  | begun {ms : List ClientMessage} (h : Wrote channel ms (Run.begin job id channel).channel) :
      Observed job id channel (ms.map .said) (Run.begin job id channel)
  | arrived {T : List Event} {r : Run} (a : Arrival) (h : Observed job id channel T r) :
      Observed job id channel T { r with channel := r.channel.arrive a }
  | stepped {T : List Event} {r : Run} {body : ServerBody} {c : Channel} {ms : List ClientMessage}
      (h : Observed job id channel T r) (hopen : r.outcome? = none)
      (hheard : Channel.receive r.channel = .ok body c)
      (hsaid : Wrote r.channel ms r.step.channel) :
      Observed job id channel (T ++ .heard body :: ms.map .said) r.step
  | broken {T : List Event} {r : Run} {e : ClientError} {c : Channel}
      (h : Observed job id channel T r) (hopen : r.outcome? = none)
      (hheard : Channel.receive r.channel = .error e c) :
      Observed job id channel T r.step

/-! ## §2 Moves -/

/-- The messages among some moves. -/
def sends (v : UInt8) (moves : List Move) : List ClientMessage :=
  moves.filterMap fun
    | .send sender body => some { sender, version := v, body }
    | _ => none

namespace Run

/-- The run `r'` is the run `r` once it wrote some messages; what else it may differ in is how far
it got. -/
structure Says (r : Run) (ms : List ClientMessage) (r' : Run) : Prop where
  job : r'.job = r.job
  version : r'.channel.version = r.channel.version
  incoming : r'.channel.incoming = r.channel.incoming
  limit : r'.channel.outgoing.limit = r.channel.outgoing.limit
  wrote : Wrote r.channel ms r'.channel

theorem Says.nothing {r r' : Run} (hjob : r'.job = r.job) (hchannel : r'.channel = r.channel) :
    r.Says [] r' where
  job := hjob
  version := by rw [hchannel]
  incoming := by rw [hchannel]
  limit := by rw [hchannel]
  wrote := by rw [hchannel]; exact .nil _

/-- A run that differs only in how far it got says the same. -/
theorem Says.of_eq {r s r' : Run} {ms : List ClientMessage} (h : s.Says ms r')
    (hjob : s.job = r.job) (hchannel : s.channel = r.channel) : r.Says ms r' where
  job := h.job.trans hjob
  version := by rw [h.version, hchannel]
  incoming := by rw [h.incoming, hchannel]
  limit := by rw [h.limit, hchannel]
  wrote := by rw [← hchannel]; exact h.wrote

theorem Says.trans {r₁ r₂ r₃ : Run} {ms ns : List ClientMessage} (h : r₁.Says ms r₂)
    (h' : r₂.Says ns r₃) : r₁.Says (ms ++ ns) r₃ where
  job := h'.job.trans h.job
  version := h'.version.trans h.version
  incoming := h'.incoming.trans h.incoming
  limit := h'.limit.trans h.limit
  wrote := h.wrote.append (by rw [← h.version]; exact h'.wrote)

/-- The messages said on the way to a run are determined by what was written. -/
theorem Says.unique {r r' : Run} {ms ns : List ClientMessage} (h : r.Says ms r')
    (h' : Wrote r.channel ns r'.channel) : ns = ms :=
  h'.unique clientMessages_bulky clientMessages_roundTrip h.wrote

end Run

/-- Sending on a connection that takes everything fails only if the message cannot be encoded, and
then writes nothing. -/
theorem send_spec {c : Channel} (hlimit : c.outgoing.limit = none) (sender : ClientId)
    (body : ClientBody) :
    (∃ b, ClientMessage.encode { sender, version := c.version, body } = .ok b ∧
      Channel.send sender body c =
        .ok () { c with outgoing := { c.outgoing with written := c.outgoing.written ++ b } }) ∨
    ∃ e, Channel.send sender body c = .error (.wire e) c := by
  cases henc : ClientMessage.encode { sender, version := c.version, body } with
  | error e => exact .inr ⟨e, by simp only [Channel.send, henc]⟩
  | ok b =>
    refine .inl ⟨b, rfl, ?_⟩
    simp only [Channel.send, henc, Sink.write_of_unlimited hlimit]

/-- The messages said on the way through some moves: all of them, or only those before one that
cannot be encoded, at which the upload fails. -/
def Spoken (v : UInt8) (moves : List Move) (wait : Wait) (ms : List ClientMessage)
    (reached : Wait) : Prop :=
  (ms = sends v moves ∧ reached = wait) ∨
    ((∃ m rest, sends v moves = ms ++ m :: rest) ∧ ∃ e, reached = .nothing (.error e))

/-- The engine makes all its moves, or fails at a message that it cannot encode. -/
theorem take_spec (moves : List Move) (wait : Wait) {r : Run}
    (hlimit : r.channel.outgoing.limit = none) :
    ∃ ms, r.Says ms (r.take moves wait) ∧
      Spoken r.channel.version moves wait ms (r.take moves wait).wait := by
  induction moves generalizing r with
  | nil => exact ⟨[], Run.Says.nothing rfl rfl, .inl ⟨rfl, rfl⟩⟩
  | cons move moves ih =>
    cases move with
    | enter state =>
      obtain ⟨ms, h, hms⟩ := ih (r := { r with state }) hlimit
      exact ⟨ms, h.of_eq rfl rfl, hms⟩
    | adopt id =>
      obtain ⟨ms, h, hms⟩ := ih (r := { r with id := some id }) hlimit
      exact ⟨ms, h.of_eq rfl rfl, hms⟩
    | send sender body =>
      -- A message that can be encoded is said, and the other moves follow.
      rcases send_spec hlimit sender body with ⟨b, henc, hsend⟩ | ⟨e, hsend⟩
      · let c : Channel :=
          { r.channel with outgoing := { r.channel.outgoing with
              written := r.channel.outgoing.written ++ b } }
        have htake : r.take (.send sender body :: moves) wait =
            { r with channel := c }.take moves wait := by simp only [Run.take, hsend, c]
        have hsaid : r.Says [{ sender, version := r.channel.version, body }]
            { r with channel := c } := ⟨rfl, rfl, rfl, rfl, .one henc rfl⟩
        rw [htake]
        obtain ⟨ms, h, hms⟩ := ih (r := { r with channel := c }) hlimit
        refine ⟨_ :: ms, hsaid.trans h, ?_⟩
        rcases hms with ⟨hms, hw⟩ | ⟨⟨m, rest, hms⟩, hw⟩
        · exact .inl ⟨congrArg (_ :: ·) hms, hw⟩
        · exact .inr ⟨⟨m, rest, congrArg (_ :: ·) hms⟩, hw⟩
      -- One that cannot be encoded ends the upload; nothing of it is written.
      · have htake : r.take (.send sender body :: moves) wait =
            { r with wait := .nothing (.error (.wire e)) } := by simp only [Run.take, hsend]
        rw [htake]
        exact ⟨[], Run.Says.nothing rfl rfl, .inr ⟨⟨_, _, rfl⟩, _, rfl⟩⟩

section Spoken

variable {v : UInt8} {moves : List Move} {wait w : Wait} {ms : List ClientMessage}
  {m n : ClientMessage}

/-- Where nothing is to be sent, the moves are all made. -/
theorem Spoken.silent (hs : Spoken v moves wait ms w)
    (hnone : sends v moves = []) : ms = [] ∧ w = wait := by
  rcases hs with ⟨rfl, rfl⟩ | ⟨⟨m, rest, h⟩, -⟩
  · exact ⟨hnone, rfl⟩
  · simp [hnone] at h

/-- Where one message is to be sent, it is, or the upload fails. -/
theorem Spoken.single (hs : Spoken v moves wait ms w)
    (hone : sends v moves = [m]) :
    (ms = [m] ∧ w = wait) ∨ (ms = [] ∧ ∃ e, w = .nothing (.error e)) := by
  rcases hs with ⟨rfl, rfl⟩ | ⟨⟨m', rest, h⟩, he⟩
  · exact .inl ⟨hone, rfl⟩
  · rw [hone] at h
    -- Only nothing comes before the first message.
    cases ms with
    | nil => exact .inr ⟨rfl, he⟩
    | cons n ns => simp at h

/-- Where two messages are to be sent, both are, or the upload fails at one of them. -/
theorem Spoken.double (hs : Spoken v moves wait ms w)
    (htwo : sends v moves = [m, n]) :
    (ms = [m, n] ∧ w = wait) ∨ ((ms = [m] ∨ ms = []) ∧ ∃ e, w = .nothing (.error e)) := by
  rcases hs with ⟨rfl, rfl⟩ | ⟨⟨m', rest, h⟩, he⟩
  · exact .inl ⟨htwo, rfl⟩
  · rw [htwo] at h
    refine .inr ⟨?_, he⟩
    cases ms with
    | nil => exact .inr rfl
    | cons a as =>
      obtain ⟨rfl, h⟩ := List.cons.inj h
      cases as with
      | nil => exact .inl rfl
      | cons b bs => simp at h

end Spoken

/-! ## §3 Steps -/

/-- Receiving uses up bytes of the server and changes nothing else. -/
theorem receive_channel (c : Channel) :
    (∃ body incoming, Channel.receive c = .ok body { c with incoming }) ∨
      ∃ e incoming, Channel.receive c = .error e { c with incoming } := by
  cases h : ServerMessage.decode c.version c.incoming with
  | ok m incoming => exact .inl ⟨m.body, incoming, by simp only [Channel.receive, h]⟩
  | error e incoming => exact .inr ⟨.wire e, incoming, by simp only [Channel.receive, h]⟩

def Run.drained (r : Run) (incoming : Reader) : Run :=
  { r with channel := { r.channel with incoming } }

/-- A run that is over stays as it is. -/
theorem step_of_over {r : Run} {outcome : Except ClientError UploadOutcome}
    (h : r.outcome? = some outcome) : r.step = r := by
  unfold Run.outcome? at h
  split at h
  · rename_i hw
    rw [Run.step, hw]
  · cases h

/-- After a message the run makes the moves that it leads to, whatever was waited for; -/
theorem step_of_heard {r : Run} {body : ServerBody} {channel : Channel} (hopen : r.outcome? = none)
    (h : Channel.receive r.channel = .ok body channel) :
    r.step = { r with channel }.take (hear r.job r.wait body).moves
      (hear r.job r.wait body).wait := by
  unfold Run.step
  cases hw : r.wait with
  | nothing outcome => simp [Run.outcome?, hw] at hopen
  | _ => simp only [h]

/-- and for want of a message it fails. -/
theorem step_of_broken {r : Run} {e : ClientError} {channel : Channel} (hopen : r.outcome? = none)
    (h : Channel.receive r.channel = .error e channel) :
    r.step = { r with channel, wait := .nothing (.error e) } := by
  unfold Run.step
  cases hw : r.wait with
  | nothing outcome => simp [Run.outcome?, hw] at hopen
  | _ => simp only [h]

/-- A step hears one message and makes the moves after it, or fails for want of a message. -/
theorem step_spec {r : Run} (hopen : r.outcome? = none) :
    (∃ body incoming,
      Channel.receive r.channel = .ok body { r.channel with incoming } ∧
      r.step = (r.drained incoming).take (hear r.job r.wait body).moves
        (hear r.job r.wait body).wait) ∨
    ∃ e incoming, Channel.receive r.channel = .error e { r.channel with incoming } ∧
      r.step = { r.drained incoming with wait := .nothing (.error e) } := by
  rcases receive_channel r.channel with ⟨body, incoming, h⟩ | ⟨e, incoming, h⟩
  · exact .inl ⟨body, incoming, h, step_of_heard hopen h⟩
  · exact .inr ⟨e, incoming, h, step_of_broken hopen h⟩

/-! ## §4 Ends -/

/-- How many uploads are made at most. -/
def Job.bound (job : Job) : Nat := max job.maxAttempts 1

/-- How many messages can still be heard. -/
def rank (job : Job) : Wait → Nat
  | .identity => job.bound + 3
  | .sessionKey _ => job.bound + 2
  | .acknowledgement _ _ number => job.bound - number + 2
  | .confirmation _ => 1
  | .nothing _ => 0

theorem outcome_isSome {r : Run} (h : rank r.job r.wait = 0) : r.outcome?.isSome := by
  unfold Run.outcome?
  cases hw : r.wait with
  | nothing outcome => rfl
  | _ => simp [rank, hw] at h

theorem bound_pos (job : Job) : 0 < job.bound :=
  Nat.lt_of_lt_of_le Nat.zero_lt_one (Nat.le_max_right ..)

/-- Each message heard leaves fewer to be heard. -/
theorem rank_hear (job : Job) {wait : Wait} (h : rank job wait ≠ 0) (body : ServerBody) :
    rank job (hear job wait body).wait < rank job wait := by
  have hpos := bound_pos job
  cases wait with
  | identity =>
    simp only [hear]
    split
    · simp only [present, rank]; omega
    · simp only [fail, rank]; omega
  | sessionKey client =>
    simp only [hear]
    split
    · simp only [attempt, rank]; omega
    · simp only [fail, rank]; omega
  | acknowledgement client upload number =>
    simp only [hear]
    split
    · simp only [judge]
      split
      · simp only [rank]; omega
      · split
        · simp only [rank]; omega
        -- Another attempt is made, which is one of those that are left.
        · rename_i hmore
          simp only [attempt, rank, Job.bound] at hmore ⊢
          omega
    · simp only [fail, rank]; omega
  | confirmation number =>
    simp only [hear]
    split <;> exact Nat.zero_lt_one
  | nothing outcome => exact absurd rfl h

theorem rank_spoken {job : Job} {v : UInt8} {moves : List Move} {wait w : Wait}
    {ms : List ClientMessage} (h : Spoken v moves wait ms w) : rank job w ≤ rank job wait := by
  rcases h with ⟨-, rfl⟩ | ⟨-, e, rfl⟩
  · exact Nat.le_refl _
  · exact Nat.zero_le _

theorem rank_start (job : Job) (id : Option ClientId) :
    rank job (start job id).wait ≤ job.bound + 3 := by
  cases id with
  | none => exact Nat.le_refl _
  | some id => exact Nat.le_succ _

/-! ## §5 Observations -/

/-- What stays of a channel and a job during a run. -/
structure Steady (job : Job) (channel : Channel) (T : List Event) (r : Run) : Prop where
  job : r.job = job
  version : r.channel.version = channel.version
  limit : r.channel.outgoing.limit = none
  wrote : Wrote channel (said T) r.channel

/-- What holds at the start, and stays true when a message is heard or the run breaks off. -/
structure Kept (job : Job) (id : Option ClientId) (v : UInt8) (P : List Event → Wait → Prop) :
    Prop where
  start : ∀ ms w, Spoken v (start job id).moves (start job id).wait ms w → P (ms.map .said) w
  hear : ∀ T wait body ms w, P T wait → (∀ o, wait ≠ .nothing o) →
    Spoken v (hear job wait body).moves (hear job wait body).wait ms w →
    P (T ++ .heard body :: ms.map .said) w
  fail : ∀ T wait e, P T wait → (∀ o, wait ≠ .nothing o) → P T (.nothing (.error e))

section Observations

variable {job : Job} {id : Option ClientId} {channel : Channel} {T : List Event} {r : Run}

theorem wait_ne_nothing (h : r.outcome? = none) (o : Except ClientError UploadOutcome) :
    r.wait ≠ .nothing o := by
  intro hw
  simp [Run.outcome?, hw] at h

theorem begin_says (job : Job) (id : Option ClientId) (hlimit : channel.outgoing.limit = none) :
    ∃ ms, Steady job channel (ms.map .said) (Run.begin job id channel) ∧
      Spoken channel.version (start job id).moves (start job id).wait ms
        (Run.begin job id channel).wait := by
  obtain ⟨ms, h, hms⟩ := take_spec (start job id).moves (start job id).wait
    (r := { job, channel, id, wait := (start job id).wait }) hlimit
  refine ⟨ms, ⟨h.job, h.version, h.limit.trans hlimit, ?_⟩, hms⟩
  rw [said_map]
  exact h.wrote

theorem step_says (h : Steady job channel T r) (hopen : r.outcome? = none) :
    (∃ body c ms, Channel.receive r.channel = .ok body c ∧ Wrote r.channel ms r.step.channel ∧
      Steady job channel (T ++ .heard body :: ms.map .said) r.step ∧
      Spoken channel.version (hear job r.wait body).moves (hear job r.wait body).wait ms
        r.step.wait) ∨
    ∃ e c, Channel.receive r.channel = .error e c ∧ Steady job channel T r.step ∧
      r.step.wait = .nothing (.error e) := by
  rcases step_spec hopen with ⟨body, incoming, hheard, hstep⟩ | ⟨e, incoming, hheard, hstep⟩
  -- The moves after the message say `ms`, which come after what was said before.
  · obtain ⟨ms, hsays, hms⟩ := take_spec (hear r.job r.wait body).moves
      (hear r.job r.wait body).wait (r := r.drained incoming) h.limit
    rw [← hstep] at hsays hms
    rw [h.job] at hms
    refine .inl ⟨body, _, ms, hheard, hsays.wrote, ⟨?_, ?_, ?_, ?_⟩, ?_⟩
    · exact hsays.job.trans h.job
    · exact hsays.version.trans h.version
    · exact hsays.limit.trans h.limit
    · have hwrote : Format.clientMessages.Wrote channel.version ms r.channel.outgoing.written
          r.step.channel.outgoing.written := by
        rw [← h.version]
        exact hsays.wrote
      rw [said_append, said_heard, said_map]
      exact h.wrote.append hwrote
    · rw [← h.version]
      exact hms
  · refine .inr ⟨e, _, hheard, ?_, by rw [hstep]⟩
    rw [hstep]
    exact ⟨h.job, h.version, h.limit, h.wrote⟩

/-- Everything that is kept holds of every observed run, by induction on the observation. -/
theorem Observed.kept {P : List Event → Wait → Prop} (hP : Kept job id channel.version P)
    (hlimit : channel.outgoing.limit = none) (h : Observed job id channel T r) :
    Steady job channel T r ∧ P T r.wait := by
  induction h with
  | begun hsaid =>
    obtain ⟨ms, hsteady, hms⟩ := begin_says job id hlimit
    have hwrote := hsteady.wrote
    rw [said_map] at hwrote
    -- What the observer read off the bytes is what the engine said.
    obtain rfl := hsaid.unique clientMessages_bulky clientMessages_roundTrip hwrote
    exact ⟨hsteady, hP.start _ _ hms⟩
  -- Bytes that arrive change nothing on the writing side.
  | arrived a h ih =>
    obtain ⟨hsteady, hp⟩ := ih
    exact ⟨⟨hsteady.job, hsteady.version, hsteady.limit, hsteady.wrote⟩, hp⟩
  | stepped h hopen hheard hsaid ih =>
    obtain ⟨hsteady, hp⟩ := ih
    rcases step_says hsteady hopen with ⟨body, c, ms, hheard', hwrote, hnext, hms⟩ | ⟨e, c, hbad, -⟩
    · rw [hheard'] at hheard
      cases hheard
      -- The message that the observer heard is the one that the engine heard.
      obtain rfl := hsaid.unique clientMessages_bulky clientMessages_roundTrip hwrote
      exact ⟨hnext, hP.hear _ _ _ _ _ hp (wait_ne_nothing hopen) hms⟩
    · rw [hbad] at hheard
      cases hheard
  | broken h hopen hheard ih =>
    obtain ⟨hsteady, hp⟩ := ih
    rcases step_says hsteady hopen with ⟨body, c, ms, hgood, -⟩ | ⟨e, c, -, hnext, hw⟩
    · rw [hgood] at hheard
      cases hheard
    · rw [hw]
      exact ⟨hnext, hP.fail _ _ _ hp (wait_ne_nothing hopen)⟩

/-- A run can be observed from its beginning. -/
theorem begin_observed (job : Job) (id : Option ClientId) (channel : Channel)
    (hlimit : channel.outgoing.limit = none) :
    ∃ T, Observed job id channel T (Run.begin job id channel) ∧
      Steady job channel T (Run.begin job id channel) ∧
      rank job (Run.begin job id channel).wait ≤ job.bound + 3 := by
  obtain ⟨ms, hsteady, hms⟩ := begin_says job id hlimit
  have hwrote := hsteady.wrote
  rw [said_map] at hwrote
  exact ⟨_, .begun hwrote, hsteady, Nat.le_trans (rank_spoken hms) (rank_start job id)⟩

/-- It can be observed through every step, and each leaves fewer messages to be heard. -/
theorem step_observed (hT : Observed job id channel T r) (h : Steady job channel T r)
    (hopen : r.outcome? = none) :
    ∃ T', Observed job id channel T' r.step ∧ Steady job channel T' r.step ∧
      rank job r.step.wait < rank job r.wait := by
  -- An open run still waits for a message.
  have hrank : rank job r.wait ≠ 0 := by
    intro h0
    have := outcome_isSome (r := r) (h.job ▸ h0)
    rw [hopen] at this
    cases this
  rcases step_says h hopen with
    ⟨body, c, ms, hheard, hwrote, hnext, hms⟩ | ⟨e, c, hheard, hnext, hw⟩
  · exact ⟨_, .stepped hT hopen hheard hwrote, hnext,
      Nat.lt_of_le_of_lt (rank_spoken hms) (rank_hear job hrank body)⟩
  · refine ⟨T, .broken hT hopen hheard, hnext, ?_⟩
    rw [hw]
    exact Nat.pos_of_ne_zero hrank

/-- A run that has as many steps left as messages can be heard ends, by induction on them. -/
theorem finishFor_observed {fuel : Nat} (hT : Observed job id channel T r)
    (h : Steady job channel T r) (hfuel : rank job r.wait ≤ fuel) :
    ∃ T', Observed job id channel T' (Run.finishFor fuel r) ∧
      (Run.finishFor fuel r).outcome?.isSome := by
  induction fuel generalizing T r with
  | zero => exact ⟨T, hT, outcome_isSome (h.job ▸ Nat.le_zero.mp hfuel)⟩
  | succ fuel ih =>
    unfold Run.finishFor
    cases hopen : r.outcome? with
    | some o => exact ⟨T, hT, by rw [hopen]; rfl⟩
    | none =>
      obtain ⟨T', hT', hsteady, hrank⟩ := step_observed hT h hopen
      exact ih hT' hsteady (by omega)

/-- With all bytes of the server at hand, a run ends. -/
theorem finish_observed (hlimit : channel.outgoing.limit = none) :
    ∃ T, Observed job id channel T (Run.begin job id channel).finish ∧
      (Run.begin job id channel).finish.outcome?.isSome := by
  obtain ⟨T, hT, hsteady, hrank⟩ := begin_observed job id channel hlimit
  refine finishFor_observed hT hsteady ?_
  rw [Run.enough, hsteady.job]
  exact hrank

/-- One round: the peer is consulted, and the engine goes on unless it is done. -/
theorem converse_succ {κ : Type} (peer : Peer κ Id) (fuel seen : Nat) (r : Run) (line : κ) :
    Run.converse peer (fuel + 1) seen r line =
      match (Run.consult peer seen r line).1.outcome? with
      | some _ => Run.consult peer seen r line
      | none => Run.converse peer fuel r.channel.outgoing.written.size
          (Run.consult peer seen r line).1.step (Run.consult peer seen r line).2 := rfl

/-- So does a run with a peer, which may answer what it has been sent as it likes. -/
theorem converse_observed {κ : Type} (peer : Peer κ Id) {fuel : Nat} (seen : Nat) (line : κ)
    (hT : Observed job id channel T r) (h : Steady job channel T r)
    (hfuel : rank job r.wait ≤ fuel) :
    ∃ T', Observed job id channel T' (Run.converse peer fuel seen r line).1 ∧
      (Run.converse peer fuel seen r line).1.outcome?.isSome := by
  induction fuel generalizing T r seen line with
  | zero =>
    exact ⟨T, .arrived _ hT, outcome_isSome (r := { r with channel := _ })
      (h.job ▸ Nat.le_zero.mp hfuel)⟩
  | succ fuel ih =>
    -- Consulting the peer is the arrival of some bytes, and a step hears one message or fails.
    let r' : Run := (Run.consult peer seen r line).1
    have hT' : Observed job id channel T r' := .arrived _ hT
    have hsteady : Steady job channel T r' := ⟨h.job, h.version, h.limit, h.wrote⟩
    rw [converse_succ]
    cases hopen : r'.outcome? with
    | some o => exact ⟨T, hT', Option.isSome_iff_exists.mpr ⟨o, hopen⟩⟩
    | none =>
      obtain ⟨T₁, hT₁, hsteady₁, hrank⟩ := step_observed hT' hsteady hopen
      exact ih _ _ hT₁ hsteady₁ (Nat.le_of_lt_succ (Nat.lt_of_lt_of_le hrank hfuel))

end Observations

end BackupVault.Engine
