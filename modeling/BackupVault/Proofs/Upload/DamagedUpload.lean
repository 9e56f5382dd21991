import BackupVault.Proofs.Crypto.Checksum
import BackupVault.Proofs.Upload.EngineConduct

/-!
# Uploads that were damaged on the way

The server computes its checksum from what it has received.  If that differs from the file in a
short burst of bits, or has zeros in front that the file has not, the checksum is another one, and
the engine does not accept it, however its connection behaves.

## Overview

- `Engine.Running`: the runs of a job, over connections that may fail as well
- `Engine.checksum_of_accept`: what the engine has heard when it moves to accept
- `Engine.damage_refused`: damaged content is never accepted
-/

set_option autoImplicit false

namespace BackupVault.Engine

open Checksum

/-! ## §1 Runs over any connection -/

/-- The runs of a job on some channel, whatever arrives and whenever.  The sink may take all
messages, or fail at any of them. -/
inductive Running (job : Job) (id : Option ClientId) (channel : Channel) : Run → Prop where
  | begun : Running job id channel (Run.begin job id channel)
  | arrived {r : Run} (a : Arrival) (h : Running job id channel r) :
      Running job id channel { r with channel := r.channel.arrive a }
  | stepped {r : Run} (h : Running job id channel r) : Running job id channel r.step

/-- What is sent again after a wrong checksum is an upload. -/
def Wait.Resends : Wait → Prop
  | .acknowledgement _ upload _ => upload.code = .upload
  | _ => True

variable {job : Job} {id : Option ClientId} {channel : Channel} {r : Run} {wait : Wait}
  {body : ServerBody}

theorem take_job (moves : List Move) (wait : Wait) (r : Run) : (r.take moves wait).job = r.job := by
  fun_induction Run.take r moves wait <;> simp_all

/-- Moves end in their own wait, or in a failure, which is no acknowledgement. -/
theorem take_resends (h : wait.Resends) (moves : List Move) (r : Run) :
    (r.take moves wait).wait.Resends := by
  fun_induction Run.take r moves wait with
  | case1 => exact h
  | case2 | case3 | case4 => assumption
  -- A message that cannot be sent ends the run.
  | case5 => trivial

theorem start_resends (job : Job) (id : Option ClientId) : (start job id).wait.Resends := by
  cases id <;> trivial

theorem hear_resends (h : wait.Resends) (body : ServerBody) :
    (hear job wait body).wait.Resends := by
  cases wait with
  | identity =>
    simp only [hear]
    split <;> trivial
  | sessionKey client =>
    simp only [hear]
    split
    · exact rfl
    · trivial
  | acknowledgement client upload number =>
    simp only [hear]
    split
    · simp only [judge]
      split
      · trivial
      · split
        · trivial
        · exact h
    · trivial
  | confirmation number =>
    simp only [hear]
    split <;> trivial
  | nothing outcome => trivial

/-- A run stays with its job, by induction on its steps. -/
theorem Running.kept (h : Running job id channel r) : r.job = job ∧ r.wait.Resends := by
  induction h with
  | begun => exact ⟨take_job .., take_resends (start_resends job id) ..⟩
  | arrived a h ih => exact ih
  | @stepped r h ih =>
    obtain ⟨hjob, hresends⟩ := ih
    cases hopen : r.outcome? with
    | some outcome =>
      rw [step_of_over hopen]
      exact ⟨hjob, hresends⟩
    | none =>
      rcases step_spec hopen with ⟨body, incoming, -, hstep⟩ | ⟨e, incoming, -, hstep⟩
      · rw [hstep]
        exact ⟨(take_job ..).trans hjob, take_resends (hear_resends hresends body) ..⟩
      · rw [hstep]
        exact ⟨hjob, trivial⟩

/-! ## §2 Acceptance -/

/-- The engine moves to accept an upload only if what it heard is the checksum of its content. -/
theorem checksum_of_accept {sender : ClientId} {filename : Name} (hwait : wait.Resends)
    (h : .send sender (.accept filename) ∈ (hear job wait body).moves) :
    (Event.heard body).checksum? = some (cksum job.plain) := by
  cases wait with
  | identity =>
    simp only [hear] at h
    split at h <;> simp [present, fail] at h
  | sessionKey client =>
    simp only [hear] at h
    split at h <;> simp [attempt, sealedFile, fail] at h
  | acknowledgement client upload number =>
    cases body with
    | uploaded origin size file checksum =>
      simp only [hear, judge] at h
      split at h
      · rename_i hright
        exact congrArg some hright
      · split at h
        · simp at h
        -- What is sent again is no acceptance.
        · simp only [attempt, List.mem_cons, reduceCtorEq, Move.send.injEq, false_or, or_false,
            List.not_mem_nil, and_false] at h
          cases h.2 ▸ hwait
    | _ => simp [hear, fail] at h
  | confirmation number =>
    simp only [hear] at h
    split at h <;> simp [fail] at h
  | nothing outcome => cases h

/-- **Damaged content is refused.**  Its checksum differs from that of the file.  So in no run is an
upload accepted after an acknowledgement of damaged content: not by the moves that the engine makes
then, and not by the messages that it is observed to say. -/
theorem damage_refused {plain other : Bytes} (h : Damaged plain other ∨ Damaged other plain) :
    cksum plain ≠ cksum other ∧ ∀ job : Job, job.plain = plain → ∀ id channel,
      (∀ r body, Running job id channel r → (Event.heard body).checksum? = some (cksum other) →
        ∀ sender filename, .send sender (.accept filename) ∉ (hear r.job r.wait body).moves) ∧
      (channel.outgoing.limit = none → ∀ T r, Observed job id channel T r →
        ∀ before m after, T = before ++ .said m :: after → Acknowledges before (cksum other) →
          m.body.code ≠ .accept) := by
  have hne : cksum plain ≠ cksum other := by
    rcases h with h | h
    · exact cksum_ne_of_damaged h
    · exact (cksum_ne_of_damaged h).symm
  refine ⟨hne, ?_⟩
  rintro job rfl id channel
  constructor
  · intro r body hr hheard sender filename haccept
    obtain ⟨hjob, hresends⟩ := hr.kept
    have hright := checksum_of_accept hresends haccept
    rw [hjob, hheard] at hright
    exact hne (Option.some.inj hright).symm
  · intro hlimit T r hT before m after heq hlast haccept
    have hallowed : Justified job before m := (hT.lawful hlimit).orderly before _ after heq
    rw [Justified, haccept] at hallowed
    -- The last event is one acknowledgement only.
    obtain ⟨T₁, e₁, h₁, hsum₁⟩ := hallowed
    obtain ⟨T₂, e₂, h₂, hsum₂⟩ := hlast
    obtain ⟨-, he⟩ := List.append_inj' (h₁.symm.trans h₂) rfl
    obtain rfl := (List.cons.inj he).1
    exact hne (Option.some.inj (hsum₁.symm.trans hsum₂))

def hello : Bytes := Bytes.ofList [104, 101, 108, 108, 111]

def jello : Bytes := Bytes.ofList [106, 101, 108, 108, 111]

theorem damaged_jello : Damaged hello jello := by
  refine .burst rfl (by decide) 0 fun i hi => ⟨Nat.zero_le i, ?_⟩
  -- From the second byte on, the bits are the same.
  by_contra hge
  refine hi ?_
  have hrest (b : UInt8) : (Bits.ofBytes [b, 101, 108, 108, 111])[i]? =
      (Bits.ofBytes [101, 108, 108, 111])[i - 8]? := by
    rw [Bits.ofBytes_cons, List.getElem?_append_right] <;> rw [Bits.length_ofWord]
    omega
  exact (hrest 104).trans (hrest 106).symm

theorem damaged_zeros : Damaged hello (Bytes.replicate 3 0 ++ hello) :=
  .zeros (by decide) (by decide) (by decide)

/-- One letter that is wrong is noticed, as are zeros in front. -/
theorem damage_refused_hello : cksum hello ≠ cksum jello ∧
    cksum hello ≠ cksum (Bytes.replicate 3 0 ++ hello) :=
  ⟨(damage_refused (.inl damaged_jello)).1, (damage_refused (.inl damaged_zeros)).1⟩

end BackupVault.Engine
