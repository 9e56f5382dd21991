import BackupVault.Crypto.Checksum
import BackupVault.Upload.Channel
import BackupVault.Upload.Identity

/-!
# The upload engine

The client's half of an upload: registration, unless the client has an identity already, then the
exchange of keys, then the file, sent again and again until the checksum that the server reports
is the right one or the attempts are used up.

Between two messages of the server the engine makes some moves, which the message it has just
heard determines.

## Overview

- `Engine.start`, `Engine.hear`: the moves at the start, and after a message
- `Engine.Run.step`, `Engine.Run.finish`: an engine that moves over a channel
- `Engine.Run.converse`, `Engine.upload`: an engine and its peer
-/

set_option autoImplicit false

namespace BackupVault

inductive UploadState where
  | idle
  | registering
  | exchangingKeys
  | uploading
  | validating (attempt : Nat)
  | done
  | givingUp
deriving DecidableEq, Repr

def UploadState.debug : UploadState → String
  | idle => "Idle"
  | registering => "Registering"
  | exchangingKeys => "ExchangingKeys"
  | uploading => "Uploading"
  | validating attempt => "Validating \x7b attempt: " ++ toString attempt ++ " \x7d"
  | done => "Done"
  | givingUp => "GivingUp"

inductive UploadOutcome where
  /-- The server has the file, as its checksum shows. -/
  | verified (attempts : Nat) (checksum : UInt32)
  /-- The checksum was wrong every time. -/
  | gaveUp (attempts : Nat)
deriving DecidableEq, Repr

namespace Engine

def defaultAttempts : Nat := 3

structure Job where
  name : Name
  keys : KeyPair
  filename : Name
  plain : Bytes
  /-- How many attempts are made at most; one is always made. -/
  maxAttempts : Nat := defaultAttempts

inductive Wait where
  | identity
  | sessionKey (client : ClientId)
  | acknowledgement (client : ClientId) (upload : ClientBody) (attempt : Nat)
  | confirmation (attempt : Nat)
  | nothing (outcome : Except ClientError UploadOutcome)

/-- Something that the engine does between two messages. -/
inductive Move where
  | enter (state : UploadState)
  | adopt (id : ClientId)
  | send (sender : ClientId) (body : ClientBody)

structure Turn where
  moves : List Move
  wait : Wait

/-! ## §1 Moves -/

def fail (e : ClientError) : Turn := { moves := [], wait := .nothing (.error e) }

def present (job : Job) (client : ClientId) : Turn where
  moves := [.enter .exchangingKeys, .send client (.publicKey job.name job.keys.publicDer)]
  wait := .sessionKey client

def start (job : Job) : Option ClientId → Turn
  | some id => present job id
  | none =>
    { moves := [.enter .registering, .send ClientId.unregistered (.registration job.name)]
      wait := .identity }

/-- The file as it goes over the wire. -/
def sealedFile (job : Job) (key : SessionKey) : ClientBody :=
  .upload job.filename (key.encrypt job.plain)

def attempt (client : ClientId) (upload : ClientBody) (number : Nat) : Turn where
  moves := [.enter .uploading, .send client upload, .enter (.validating number)]
  wait := .acknowledgement client upload number

/-- Judge an acknowledgement by its checksum alone. -/
def judge (job : Job) (client : ClientId) (upload : ClientBody) (number : Nat)
    (checksum : UInt32) : Turn :=
  if checksum = cksum job.plain then
    { moves := [.send client (.accept job.filename), .enter .done], wait := .confirmation number }
  else if max job.maxAttempts 1 ≤ number then
    { moves := [.send client (.giveUp job.filename), .enter .givingUp]
      wait := .nothing (.ok (.gaveUp number)) }
  else
    let again := attempt client upload (number + 1)
    { again with moves := .send client (.retry job.filename) :: again.moves }

def hear (job : Job) (wait : Wait) (body : ServerBody) : Turn :=
  match wait with
  | .identity =>
    match Channel.identityIn job.name body with
    | .ok id =>
      let next := present job id
      { next with moves := .adopt id :: next.moves }
    | .error e => fail e
  | .sessionKey client =>
    match Channel.sessionKeyIn client job.keys body with
    | .ok key => attempt client (sealedFile job key) 1
    | .error e => fail e
  | .acknowledgement client upload number =>
    match body with
    | .uploaded _ _ _ checksum => judge job client upload number checksum
    | body => fail (Channel.unexpected "UploadSuccessful" body)
  | .confirmation number =>
    match body with
    | .success => { moves := [], wait := .nothing (.ok (.verified number (cksum job.plain))) }
    | body => fail (Channel.unexpected "Success" body)
  | .nothing outcome => { moves := [], wait := .nothing outcome }

/-! ## §2 Runs -/

/-- The other side: given some bytes, what it sends back.  The last argument tells of bytes that
came back whether they are enough for the time being. -/
abbrev Peer (κ : Type) (m : Type → Type) := κ → Bytes → (Bytes → Bool) → m (Arrival × κ)

structure Run where
  job : Job
  channel : Channel
  id : Option ClientId
  state : UploadState := .idle
  wait : Wait

namespace Run

/-- Make some moves; if a message cannot be sent, the upload fails and the other moves are not
made. -/
def take (r : Run) (moves : List Move) (wait : Wait) : Run :=
  match moves with
  | [] => { r with wait }
  | .enter state :: rest => take { r with state } rest wait
  | .adopt id :: rest => take { r with id := some id } rest wait
  | .send sender body :: rest =>
    match Channel.send sender body r.channel with
    | .ok _ channel => take { r with channel } rest wait
    | .error e channel => { r with channel, wait := .nothing (.error e) }

def begin (job : Job) (id : Option ClientId) (channel : Channel) : Run :=
  let turn := start job id
  take { job, channel, id, wait := turn.wait } turn.moves turn.wait

def outcome? (r : Run) : Option (Except ClientError UploadOutcome) :=
  match r.wait with
  | .nothing outcome => some outcome
  | _ => none

/-- Receive one message and make the moves after it. -/
def step (r : Run) : Run :=
  match r.wait with
  | .nothing _ => r
  | wait =>
    match Channel.receive r.channel with
    | .ok body channel =>
      let turn := hear r.job wait body
      take { r with channel } turn.moves turn.wait
    | .error e channel => { r with channel, wait := .nothing (.error e) }

/-- Messages that the engine hears at most. -/
def enough (r : Run) : Nat := max r.job.maxAttempts 1 + 3

def finishFor : (fuel : Nat) → Run → Run
  | 0, r => r
  | fuel + 1, r =>
    match r.outcome? with
    | some _ => r
    | none => finishFor fuel r.step

/-- Go on until the upload ends, with all bytes of the server at hand. -/
def finish (r : Run) : Run := finishFor r.enough r

/-- Hand over the bytes written since `seen`, and take in what the peer sends back. -/
def consult {κ : Type} {m : Type → Type} [Monad m] (peer : Peer κ m) (seen : Nat) (r : Run)
    (line : κ) : m (Run × κ) := do
  let sent := r.channel.outgoing.written
  let (back, line) ← peer line (sent.extract seen sent.size) r.channel.isWhole
  return ({ r with channel := r.channel.arrive back }, line)

/-- Go on until the upload ends, with a peer that is consulted before each message. -/
def converse {κ : Type} {m : Type → Type} [Monad m] (peer : Peer κ m) :
    (fuel seen : Nat) → Run → κ → m (Run × κ)
  | 0, seen, r, line => consult peer seen r line
  | fuel + 1, seen, r, line => do
    let (r', line) ← consult peer seen r line
    match r'.outcome? with
    | some _ => return (r', line)
    | none => converse peer fuel r.channel.outgoing.written.size r'.step line

end Run

/-! ## §3 Uploads -/

/-- The job of uploading a file.  There is none if a name does not fit its field. -/
def jobFor (identity : Identity) (filename : String) (plain : Bytes) (maxAttempts : Nat) :
    Except ClientError Job :=
  match Name.ofText identity.name with
  | .error e => .error (.wire e)
  | .ok name =>
    match Name.ofText filename with
    | .error e => .error (.wire e)
    | .ok filename => .ok { name, keys := identity.keys, filename, plain, maxAttempts }

structure Result where
  outcome : Except ClientError UploadOutcome
  identity : Identity
  state : UploadState := .idle

def Run.result (r : Run) (identity : Identity) : Result where
  outcome := r.outcome?.getD (.error (.wire (.shortRead 1)))
  identity := { identity with id := r.id }
  state := r.state

/-- Upload a file over a connection.  A job that cannot be done sends nothing. -/
def upload {κ : Type} {m : Type → Type} [Monad m] (peer : Peer κ m) (version : UInt8)
    (identity : Identity) (job : Except ClientError Job) (line : κ) : m Result := do
  match job with
  | .error e => return { outcome := .error e, identity }
  | .ok job =>
    let channel : Channel := { version, incoming := Reader.ofBytes ByteArray.empty }
    let r := Run.begin job identity.id channel
    let (r, _) ← Run.converse peer r.enough 0 r line
    return r.result identity

def nameAt (p : Path) : Except ClientError String :=
  match p.fileNameText? with
  | some filename => .ok filename
  | none => .error (.io (.noFileName p.display))

end Engine

end BackupVault
