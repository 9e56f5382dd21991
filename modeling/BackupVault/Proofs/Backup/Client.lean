import BackupVault.Backup.Client
import BackupVault.Proofs.Backup.Connection

/-!
# What clients do

A client sends one request and makes something of the stream that comes back, whatever the world is
in which it asks.  A request that is too long is not sent.

## Overview

- `Backup.heard`: what a client makes of a stream
- `Backup.run_ask`, `Backup.run_request`: a request and its response
- `Backup.ask_unsent`, `Backup.request_unsent`: requests that are not sent
- `Backup.serve_request`: a request and its response, at the server
-/

set_option autoImplicit false

namespace BackupVault.Backup

/-- What a client makes of the stream that came back. -/
def heard (version : UInt8) (source : Source) : Except ClientError ResponseBody :=
  match Response.decode version { source } with
  | .ok response _ => .ok response.body
  | .error e _ => .error (.wire e)

/-- A stream that holds a response is taken for it. -/
theorem heard_of_encode {response : Response} {b : Bytes} (h : response.encode = .ok b)
    {source : Source} (hsource : source.unread = b) :
    heard response.version source = .ok response.body := by
  obtain ⟨r, hr, -⟩ := (Response.takes_of_encode h).closes { source } hsource
  unfold heard
  rw [hr]

section Asking

variable {α : Type} {c : Client} {body : RequestBody} {m : Type → Type} [Monad m]

/-- What is too long is not sent, and no peer is asked. -/
theorem ask_unsent {e : WireError} (h : oversize? body.text body.payload = some e) (c : Client)
    (peer : Peer m) : c.ask peer body = throw (.wire e) := by
  have hunless := Request.encode_unless { user := c.user, version := c.version, body }
  rw [h] at hunless
  have hfailed : Request.encode { user := c.user, version := c.version, body } = .error e := hunless
  rw [Client.ask, hfailed]

/-- What a request comes to is what its response means. -/
theorem run_request (peer : Peer m) (meaning : ResponseBody → Except ClientError α) :
    (c.request peer body meaning).run = do return (← (c.ask peer body).run).bind meaning := by
  unfold Client.request
  rw [ExceptT.run_bind]
  refine bind_congr fun reply => ?_
  cases reply with
  | error e => rfl
  | ok response =>
    dsimp only [Except.bind]
    cases meaning response <;> rfl

variable [LawfulMonad m]

theorem request_unsent {e : WireError} (h : oversize? body.text body.payload = some e) (c : Client)
    (peer : Peer m) (meaning : ResponseBody → Except ClientError α) :
    c.request peer body meaning = throw (.wire e) := by
  unfold Client.request
  rw [ask_unsent h]
  apply ExceptT.ext
  simp

/-- A request that is sent is put to the peer. -/
theorem run_ask {b : Bytes}
    (h : Request.encode { user := c.user, version := c.version, body } = .ok b) (peer : Peer m) :
    (c.ask peer body).run = do
      match ← peer b with
      | .ok source => return heard c.version source
      | .error e => return .error (.io e) := by
  rw [Client.ask, h]
  dsimp only
  have hlift : (liftM (peer b) : ExceptT ClientError m (Except IoFailure Source)).run =
    .ok <$> peer b := ExceptT.run_lift _
  rw [ExceptT.run_bind, hlift, bind_map_left]
  refine bind_congr fun reply => ?_
  cases reply with
  | error e => rfl
  | ok source =>
    unfold heard
    dsimp only
    cases Response.decode c.version { source } <;> rfl

end Asking

/-- A server does a request, and is heard to answer it if the response fits. -/
theorem serve_request {request : Request} {b : Bytes} (h : request.encode = .ok b) (label : String)
    (s : Storage)
    (htext : (Bytes.ofText (answer request.version label request s).1.body.text).size ≤ maxText)
    (hfits : (answer request.version label request s).1.body.payload.size ≤ maxPayload)
    (incoming : Reader) (hincoming : incoming.unread = b) :
    (serve request.version label incoming {} s).storage =
        (answer request.version label request s).2 ∧
      ∀ source : Source,
        source.unread = (serve request.version label incoming {} s).outgoing.written →
          heard request.version source = .ok (answer request.version label request s).1.body := by
  obtain ⟨r, hr, -⟩ := (Request.takes_of_encode h).closes incoming hincoming
  rw [serve_eq, respond_of_decode hr]
  have hencode := encode_sent htext
  rw [sent, if_pos hfits] at hencode
  refine ⟨rfl, fun source hsource => ?_⟩
  have hheard := heard_of_encode hencode hsource
  rwa [version_answer] at hheard

end BackupVault.Backup
