import BackupVault.Upload.Session
import BackupVault.Wire.Sink

/-!
# Conversations

A session together with the connection that it speaks over.

## Overview

- `Conversation.step`: one step of a session, with what it reads and writes
- `Conversation.run`: all steps, as far as the incoming bytes reach
- `Conversation.answer`: what some bytes lead to
-/

set_option autoImplicit false

namespace BackupVault

/-- A session with its connection. -/
structure Conversation where
  version : UInt8
  phase : Session.Phase := .greeting
  incoming : Reader
  outgoing : Sink := {}

namespace Conversation

def outcome? (c : Conversation) : Option (Except SessionError Unit) :=
  match c.phase with
  | .ended outcome => some outcome
  | _ => none

/-- Send an answer and enter the next phase; the conversation ends if it cannot be sent. -/
def take (c : Conversation) (turn : Session.Turn) : Conversation :=
  match turn.reply with
  | none => { c with phase := turn.phase }
  | some body =>
    match ServerMessage.encode { version := c.version, body } with
    | .error e => { c with phase := .ended (.error (.wire e)) }
    | .ok b =>
      match c.outgoing.write b with
      | (.ok _, outgoing) => { c with phase := turn.phase, outgoing }
      | (.error e, outgoing) => { c with phase := .ended (.error (.io e)), outgoing }

/-- Hear one message; the conversation ends if there is none. -/
def hear (c : Conversation) : Conversation :=
  match ClientMessage.decode c.version c.incoming with
  | .ok m incoming => { c with incoming }.take (Session.hear c.phase m)
  | .error e incoming => { c with incoming, phase := .ended (.error (.wire e)) }

/-- The bytes at hand end before the next message does. -/
def isStarving (c : Conversation) : Bool :=
  match ClientMessage.decode c.version c.incoming with
  | .error (.shortRead _) _ => true
  | .error (.io _) _ => true
  | _ => false

/-- One step: hear a message, or do what there is to do. -/
def step (c : Conversation) (v : Vault) : Conversation × Vault :=
  match c.phase with
  | .ended _ => (c, v)
  | phase =>
    match Session.action? phase with
    | some x =>
      let (turn, v) := Session.act x v
      (c.take turn, v)
    | none => (c.hear, v)

/-- The session can go on with the bytes at hand. -/
def isReady (c : Conversation) : Bool :=
  match c.phase with
  | .ended _ => false
  | phase => (Session.action? phase).isSome || !c.isStarving

/-- Take steps.  While more bytes may come in, the session waits where they run out; otherwise it
goes on until it ends. -/
def runFor (moreToCome : Bool) : (fuel : Nat) → Conversation → Vault → Conversation × Vault
  | 0, c, v => (c, v)
  | fuel + 1, c, v =>
    if c.outcome?.isSome || (moreToCome && !c.isReady) then (c, v)
    else
      let (c, v) := c.step v
      runFor moreToCome fuel c v

/-- More steps than a session takes on the bytes at hand: each message makes for three at most,
and no message is shorter than its header. -/
def enough (c : Conversation) : Nat := 3 * (c.incoming.remaining / 23) + 8

def run (moreToCome : Bool) (c : Conversation) (v : Vault) : Conversation × Vault :=
  runFor moreToCome c.enough c v

def receive (c : Conversation) (b : Bytes) : Conversation :=
  { c with incoming := { c.incoming with source := c.incoming.source.append b } }

/-- Take in some bytes and go on as far as they reach.  The first result is what was written. -/
def answer (b : Bytes) (c : Conversation) (v : Vault) : Bytes × Conversation × Vault :=
  let before := c.outgoing.written.size
  let (c, v) := (c.receive b).run true v
  (c.outgoing.written.extract before c.outgoing.written.size, c, v)

end Conversation

end BackupVault
