import BackupVault.Backup.Answer
import BackupVault.Proofs.Storage.Calls

/-!
# Requests as calls on the registry

A request of the backup protocol leads to one call on the registry, and its response is told by
what came of the call.  Only the label on a list of files is from elsewhere.

## Overview

- `Backup.callOf`: the call that a request leads to
- `Backup.bodyFor`: the response that is told of it
- `Backup.answer_eq`: answering a request is the call and this response
-/

set_option autoImplicit false

namespace BackupVault

open Registry

namespace Backup

/-- The call that a request leads to. -/
def callOf (user : UserId) : RequestBody → Call
  | .backup filename payload => .store user filename payload
  | .restore filename => .read user filename
  | .delete filename => .delete user filename
  | .list => .list user

/-- The response when the call succeeded. -/
def bodyOf (label : String) : RequestBody → Answer → ResponseBody
  | .restore filename, .content payload => .restored filename payload
  | .list, .names names => .listed label (listing names)
  | .backup filename _, _ | .delete filename, _ => .done filename
  | _, _ => .serverError

theorem perform_eq (label : String) (user : UserId) (body : RequestBody) :
    perform label user body =
      (callOf user body).perform >>= fun a => pure (bodyOf label body a) := by
  cases body with
  | backup filename payload => simp only [perform, callOf, Call.perform, bind_assoc, pure_bind]; rfl
  | restore filename => simp only [perform, callOf, Call.perform, bind_assoc, pure_bind]; rfl
  | delete filename => simp only [perform, callOf, Call.perform, bind_assoc, pure_bind]; rfl
  | list => simp only [perform, callOf, Call.perform, bind_assoc, pure_bind]; rfl

/-- The response when this came of the call. -/
def bodyFor (label : String) (body : RequestBody) (told : Told) : ResponseBody :=
  match told with
  | .ok a => bodyOf label body a
  | .error e => refusal body e

theorem answer_eq (version : UInt8) (label : String) (request : Request) (s : Storage) :
    answer version label request s =
      ({ version
         body := bodyFor label request.body
          (outcome ((callOf request.user request.body).perform s)) },
        after ((callOf request.user request.body).perform s)) := by
  unfold answer
  rw [perform_eq]
  cases h : (callOf request.user request.body).perform s with
  | ok a s' => rw [bind_run_ok h]; rfl
  | error e s' => rw [bind_run_error h]; rfl

end Backup

/-- The response without the label on a list of files, which is random. -/
def ResponseBody.unlabelled : ResponseBody → ResponseBody
  | listed _ payload => listed "" payload
  | body => body

theorem ResponseBody.unlabelled_bodyFor (label label' : String) (body : RequestBody)
    (told : Told) :
    (Backup.bodyFor label body told).unlabelled = (Backup.bodyFor label' body told).unlabelled := by
  cases told with
  | error e => rfl
  | ok a =>
    cases body with
    | list => cases a <;> rfl
    | backup filename payload => cases a <;> rfl
    | restore filename => cases a <;> rfl
    | delete filename => cases a <;> rfl

end BackupVault
