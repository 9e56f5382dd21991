import BackupVault.Proofs.Config.SavedIdentity
import BackupVault.Proofs.Crypto.KeyLine
import BackupVault.Proofs.Upload.EngineConduct
import BackupVault.Proofs.Wire.Sizes

/-!
# What becomes of a gained identity

A client without an identity takes on the one that the server sends, whatever it is, and keeps it in
its identity file.  The file is read back, and all later uploads are made under this identity; but an
identity that is the one of unregistered clients is refused there, and so is lost.

## Overview

- `Engine.take_id`, `Engine.Observed.id_eq`: the identity of a run
- `Engine.Observed.returning`: what a client with an identity says
- `Engine.gained_identity`: from the upload that gained it to the file, and on to later uploads
-/

set_option autoImplicit false

namespace BackupVault.Engine

variable {job : Job} {id : Option ClientId} {client : ClientId} {channel : Channel}
  {T : List Event} {r : Run}

/-! ## §1 Adopting an identity -/

/-- The identity after some moves is one that was adopted, or the one from before. -/
theorem take_id (moves : List Move) (wait : Wait) (r : Run) :
    (r.take moves wait).id = r.id ∨
      ∃ i, .adopt i ∈ moves ∧ (r.take moves wait).id = some i := by
  induction moves generalizing r with
  | nil => exact .inl rfl
  | cons move moves ih =>
    cases move with
    | enter state =>
      rcases ih { r with state } with h | ⟨i, hi, h⟩
      · exact .inl h
      · exact .inr ⟨i, List.mem_cons_of_mem _ hi, h⟩
    | adopt client =>
      rcases ih { r with id := some client } with h | ⟨i, hi, h⟩
      · exact .inr ⟨client, List.mem_cons_self, h⟩
      · exact .inr ⟨i, List.mem_cons_of_mem _ hi, h⟩
    | send sender body =>
      -- A message that cannot be sent ends the upload, but not before the moves made so far.
      rw [Run.take]
      split
      · rename_i channel hsend
        rcases ih { r with channel } with h | ⟨i, hi, h⟩
        · exact .inl h
        · exact .inr ⟨i, List.mem_cons_of_mem _ hi, h⟩
      · exact .inl rfl

/-- No identity is adopted at the start, -/
theorem not_adopt_start (i : ClientId) : .adopt i ∉ (start job id).moves := by
  cases id <;> simp [start, present]

/-- and later only one that was just heard. -/
theorem heard_of_adopt {wait : Wait} {body : ServerBody} {i : ClientId}
    (h : .adopt i ∈ (hear job wait body).moves) : body = .registered i := by
  cases wait with
  | identity =>
    cases body with
    | registered client =>
      simp only [hear, Channel.identityIn, present, List.mem_cons, Move.adopt.injEq] at h
      rcases h with rfl | h
      · rfl
      · simp at h
    | _ => cases h
  | sessionKey client =>
    simp only [hear] at h
    split at h <;> simp [attempt, fail] at h
  | acknowledgement client upload number =>
    simp only [hear, judge] at h
    split at h
    · split at h
      · simp at h
      · split at h <;> simp [attempt] at h
    · simp [fail] at h
  | confirmation number =>
    simp only [hear] at h
    split at h <;> simp [fail] at h
  | nothing outcome => cases h

/-- The identity of a run is the one from the beginning or one that was heard, by induction on the
observation. -/
theorem Observed.id_eq (h : Observed job id channel T r) :
    r.id = id ∨ ∃ i, .heard (.registered i) ∈ T ∧ r.id = some i := by
  induction h with
  | begun hsaid =>
    rcases take_id (start job id).moves (start job id).wait
      { job, channel, id, wait := (start job id).wait } with h | ⟨i, hi, -⟩
    · exact .inl h
    · exact absurd hi (not_adopt_start i)
  | arrived a h ih => exact ih
  | @stepped T r body c ms h hopen hheard hsaid ih =>
    rw [step_of_heard hopen hheard]
    rcases take_id (hear r.job r.wait body).moves (hear r.job r.wait body).wait
      { r with channel := c } with hnext | ⟨i, hi, hnext⟩
    · rw [hnext]
      rcases ih with ih | ⟨i, hi, hr⟩
      · exact .inl ih
      · exact .inr ⟨i, List.mem_append_left _ hi, hr⟩
    -- What is adopted now is what was heard in this step.
    · obtain rfl := heard_of_adopt hi
      exact .inr ⟨i, List.mem_append_right _ List.mem_cons_self, hnext⟩
  | broken h hopen hheard ih =>
    rw [step_of_broken hopen hheard]
    exact ih

/-! ## §2 Coming back -/

/-- What a client says that has an identity already: it presents its key first, says all of it under
its identity, and asks for no other. -/
structure Returning (job : Job) (client : ClientId) (version : UInt8) (T : List Event) : Prop where
  presents : [presenting job version client] <+: said T
  sender : ∀ m ∈ said T, m.sender = client
  asks : ∀ m ∈ said T, m.body.code ≠ .registration
  key : ∀ m ∈ said T, m.body.code = .publicKey →
    m.body = .publicKey job.name job.keys.publicDer

/-- An acceptable key can be sent. -/
theorem encode_presenting (hkeys : job.keys.publicKey.isAcceptable = true) (version : UInt8)
    (client : ClientId) : ∃ b, ClientMessage.encode (presenting job version client) = .ok b := by
  have hder := PublicKey.size_toDer_le hkeys
  refine ClientMessage.encode_eq_ok ?_
  change 255 + job.keys.publicKey.toDer.size ≤ 67108864
  omega

/-- It is the first that is said, by induction on the observation. -/
theorem Observed.presents (hlimit : channel.outgoing.limit = none)
    (hkeys : job.keys.publicKey.isAcceptable = true)
    (h : Observed job (some client) channel T r) :
    [presenting job channel.version client] <+: said T := by
  obtain ⟨b, hb⟩ := encode_presenting hkeys channel.version client
  induction h with
  | begun hsaid =>
    -- The only message at the beginning can be encoded, so that it was written.
    have hwritten : (Run.begin job (some client) channel).channel.outgoing.written =
        channel.outgoing.written ++ b := by
      rw [presenting] at hb
      simp only [Run.begin, start, present, Run.take, Channel.send, hb,
        Sink.write_of_unlimited hlimit]
    have hwrote : Wrote channel [presenting job channel.version client]
        (Run.begin job (some client) channel).channel := by
      rw [Wrote, hwritten]
      exact .one hb rfl
    obtain rfl := hsaid.unique clientMessages_bulky clientMessages_roundTrip hwrote
    exact ⟨[], by rw [said_map, List.append_nil]⟩
  | arrived a h ih => exact ih
  | stepped h hopen hheard hsaid ih =>
    rw [said_append]
    exact ih.trans (List.prefix_append ..)
  | broken h hopen hheard ih => exact ih

/-- The script of a client with an identity. -/
theorem mem_script_known {v : UInt8} {content : Bytes} {k : Nat} {verdict : ClientBody}
    {m : ClientMessage} (hverdict : verdict = .accept job.filename ∨ verdict = .giveUp job.filename)
    (h : m ∈ script job v (some client) client content k verdict) :
    m = presenting job v client ∨
      (m.sender = client ∧ m.body.code ≠ .registration ∧ m.body.code ≠ .publicKey) := by
  rcases mem_script h with ⟨hid, -⟩ | hm | rfl | rfl | rfl
  · cases hid
  · exact .inl hm
  · refine .inr ⟨rfl, ?_, ?_⟩ <;> rintro ⟨⟩
  · refine .inr ⟨rfl, ?_, ?_⟩ <;> rintro ⟨⟩
  · rcases hverdict with rfl | rfl <;> refine .inr ⟨rfl, ?_, ?_⟩ <;> rintro ⟨⟩

theorem Observed.returning (hlimit : channel.outgoing.limit = none)
    (hkeys : job.keys.publicKey.isAcceptable = true)
    (h : Observed job (some client) channel T r) :
    Returning job client channel.version T := by
  obtain ⟨c, content, k, verdict, hc, -, hverdict, hpre⟩ := (h.lawful hlimit).follows
  obtain rfl : client = c := hc
  have hknown (m : ClientMessage) (hm : m ∈ said T) := mem_script_known hverdict (hpre.subset hm)
  refine ⟨h.presents hlimit hkeys, fun m hm => ?_, fun m hm => ?_, fun m hm hcode => ?_⟩
  · rcases hknown m hm with rfl | ⟨hsender, -⟩
    · rfl
    · exact hsender
  · rcases hknown m hm with rfl | ⟨-, hasks, -⟩
    · rintro ⟨⟩
    · exact hasks
  · rcases hknown m hm with rfl | ⟨-, -, hkey⟩
    · rfl
    · exact absurd hcode hkey

/-! ## §3 From upload to upload -/

/-- An upload over a new connection to some peer, with what is said and heard in it. -/
def Logged {κ : Type} (peer : Peer κ Id) (version : UInt8) (identity : Identity) (job : Job)
    (line : κ) (T : List Event) (r : Run) : Prop :=
  Observed job identity.id { version, incoming := Reader.ofBytes ByteArray.empty } T r ∧
    upload peer version identity (.ok job) line = r.result identity

theorem exists_logged {κ : Type} (peer : Peer κ Id) (version : UInt8) (identity : Identity)
    (job : Job) (line : κ) : ∃ T r, Logged peer version identity job line T r := by
  obtain ⟨T, r, hT, hupload, -⟩ :=
    (conduct_of_job job identity.id).converses κ peer version identity line rfl
  exact ⟨T, r, hT, hupload⟩

/-- All uploads with an identity file that was read go on under the identity in it. -/
def GoesOn (saved : SavedIdentity) : Prop :=
  ∀ filename plain maxAttempts job,
    jobFor (Identity.ofSaved saved) filename plain maxAttempts = .ok job →
      ∀ (κ : Type) (peer : Peer κ Id) (version : UInt8) (line : κ), ∃ T r,
        Logged peer version (Identity.ofSaved saved) job line T r ∧ job.keys = saved.keys ∧
          Returning job saved.id version T

theorem goesOn_of_isConsistent {saved : SavedIdentity} (hkeys : saved.keys.isConsistent = true) :
    GoesOn saved := by
  intro filename plain maxAttempts job hjob κ peer version line
  obtain ⟨-, -, hsame, -⟩ := jobFor_eq_ok hjob
  obtain ⟨T, r, hT⟩ := exists_logged peer version (Identity.ofSaved saved) job line
  have haccept : job.keys.publicKey.isAcceptable = true := by
    rw [hsame]
    exact KeyPair.isAcceptable_of_isConsistent hkeys
  exact ⟨T, r, hT, hsame, hT.1.returning rfl haccept⟩

section Gained

variable {s : String} {info : TransferInfo} {bits : Nat} {e : Entropy} {keys : KeyPair}
  {key : String} {filename : String} {plain : Bytes} {maxAttempts : Nat} {κ : Type}
  {peer : Peer κ Id} {version : UInt8} {line : κ} {result : Result} {id : ClientId}

/-- **What becomes of a gained identity.**  A client with the name of a transfer file and a
generated key pair uploads to any server and gains an identity, whether or not the upload itself
succeeds.  Then the identity is one that the server sent.  The identity file that is written for it
is read back as it is, if it is an identity of registered clients, and all later uploads go on under
it; otherwise the file is refused. -/
theorem gained_identity (hinfo : TransferInfo.ofText s = .ok info)
    (hkeys : (KeyPair.generate bits e).1 = .ok keys) (hkey : keys.toBase64 = .ok key)
    (hresult : upload peer version { name := info.name, keys }
      (jobFor { name := info.name, keys } filename plain maxAttempts) line = result)
    (hid : result.identity.id = some id) :
    (∃ job T r, jobFor { name := info.name, keys } filename plain maxAttempts = .ok job ∧
      Logged peer version { name := info.name, keys } job line T r ∧
        .heard (.registered id) ∈ T) ∧
    ∃ saved text, result.identity.toSaved? = some saved ∧
      saved = { name := info.name, id, keys } ∧ saved.text = .ok text ∧
      if id.isRegistered then SavedIdentity.ofText text = .ok saved ∧ GoesOn saved
      else SavedIdentity.ofText text = .error (.badId id.text) := by
  obtain ⟨hconsistent, hshort⟩ := KeyPair.of_generate hkeys
  have hback := KeyPair.ofBase64_toBase64 hconsistent hshort hkey
  cases hjob : jobFor { name := info.name, keys } filename plain maxAttempts with
  | error fault =>
    -- Without a job nothing is gained.
    rw [hjob] at hresult
    subst hresult
    cases hid
  | ok job =>
    obtain ⟨T, r, hT, hupload⟩ := exists_logged peer version { name := info.name, keys } job line
    rw [hjob, hupload] at hresult
    subst hresult
    have hheard : .heard (.registered id) ∈ T := by
      rcases hT.id_eq with hr | ⟨i, hi, hr⟩
      · cases hr.symm.trans hid
      · cases hr.symm.trans hid
        exact hi
    refine ⟨⟨job, T, r, rfl, ⟨hT, hupload⟩, hheard⟩, { name := info.name, id, keys }, _, ?_, rfl,
      SavedIdentity.text_eq hkey, ?_⟩
    · rw [Identity.toSaved?, hid]
      rfl
    · -- The file is put together from three lines.
      have hread := SavedIdentity.ofText_text (i := { name := info.name, id, keys })
        (TransferInfo.isField_name hinfo) hkey hback (SavedIdentity.text_eq hkey)
      split
      · rename_i hregistered
        rw [hread, if_pos hregistered]
        exact ⟨rfl, goesOn_of_isConsistent hconsistent⟩
      · rename_i hunregistered
        rw [hread, if_neg hunregistered]

end Gained

/-! ### Servers that assign one identity -/

/-- A server that answers whatever it is sent by assigning an identity. -/
def assigning (id : ClientId) : Peer Unit Id := fun _ _ _ =>
  let encoded := ServerMessage.encode { version := 3, body := .registered id }
  ({ bytes := encoded.toOption.getD ByteArray.empty }, ())

/-- A transfer file. -/
def aliceFile : String := "127.0.0.1:1234\nalice\nf.txt\n"

def aliceInfo : TransferInfo where
  server := "127.0.0.1:1234"
  name := "alice"
  file := Path.ofText "f.txt"

theorem ofText_aliceFile : TransferInfo.ofText aliceFile = .ok aliceInfo := by decide +kernel

/-- A pair of the smallest size, generated from nothing but zeros. -/
def aliceKeys : KeyPair where
  modulus := 75077
  exponent := 65537
  privateExponent := 49409
  p := 193
  q := 389

theorem generate_aliceKeys : (KeyPair.generate 17 { byte := fun _ => 0 }).1 = .ok aliceKeys := by
  decide +kernel

/-- The upload of the file with this name, to a server that assigns the identity. -/
def aliceUpload (id : ClientId) : Result :=
  upload (assigning id) 3 { name := aliceInfo.name, keys := aliceKeys }
    (jobFor { name := aliceInfo.name, keys := aliceKeys } "f.txt" (Bytes.ofText "first") 3) ()

/-- An identity that was assigned comes back from the file, though the upload itself failed. -/
theorem gained_identity_kept : ∃ id saved text, (aliceUpload id).outcome.isOk = false ∧
    (aliceUpload id).identity.toSaved? = some saved ∧ saved.text = .ok text ∧
      SavedIdentity.ofText text = .ok saved ∧ GoesOn saved := by
  let id := ClientId.padded (Bytes.ofList [1])
  obtain ⟨key, hkey⟩ := KeyPair.toBase64_eq_ok_iff (k := aliceKeys).mpr (by decide)
  have hresult : upload (assigning id) 3 { name := aliceInfo.name, keys := aliceKeys }
      (jobFor { name := aliceInfo.name, keys := aliceKeys } "f.txt" (Bytes.ofText "first") 3) () =
        aliceUpload id := rfl
  have hid : (aliceUpload id).identity.id = some id := by decide +kernel
  have hregistered : id.isRegistered = true := by decide
  obtain ⟨-, saved, text, hsaved, -, htext, hread⟩ :=
    gained_identity ofText_aliceFile generate_aliceKeys hkey hresult hid
  rw [if_pos hregistered] at hread
  have hfailed : (aliceUpload id).outcome.isOk = false := by decide +kernel
  exact ⟨id, saved, text, hfailed, hsaved, htext, hread⟩

/-- The identity of unregistered clients can be assigned as well, but its file is refused. -/
theorem gained_identity_lost : ∃ saved text,
    (aliceUpload ClientId.unregistered).identity.toSaved? = some saved ∧
      saved.text = .ok text ∧
      SavedIdentity.ofText text = .error (.badId "00000000000000000000000000000000") := by
  obtain ⟨key, hkey⟩ := KeyPair.toBase64_eq_ok_iff (k := aliceKeys).mpr (by decide)
  obtain ⟨hconsistent, hshort⟩ := KeyPair.of_generate generate_aliceKeys
  have hback := KeyPair.ofBase64_toBase64 hconsistent hshort hkey
  have hsaved : (aliceUpload ClientId.unregistered).identity.toSaved? =
      some { name := "alice", id := ClientId.unregistered, keys := aliceKeys } := by
    decide +kernel
  have htext := SavedIdentity.text_eq
    (i := { name := "alice", id := ClientId.unregistered, keys := aliceKeys }) hkey
  have hread := SavedIdentity.ofText_text (TransferInfo.isField_name ofText_aliceFile) hkey hback
    htext
  exact ⟨_, _, hsaved, htext, hread⟩

end BackupVault.Engine
