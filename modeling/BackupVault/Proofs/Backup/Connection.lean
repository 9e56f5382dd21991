import BackupVault.Backup.Connection
import BackupVault.Proofs.Backup.Answer
import BackupVault.Proofs.Text.Ascii
import BackupVault.Proofs.Wire.Canonical

/-!
# One connection, one answer

Whatever a peer sends, it is answered by the bytes of one response.  What is no request is answered
by a failure of the server and changes nothing; a request is done, and neither how its bytes came
in nor what came after them makes a difference.

## Overview

- `Backup.sent`: the response that goes out in place of another
- `Backup.text_answer_le`: a response fits, its payload aside
- `Backup.Answered`: what can be expected of one connection
- `Backup.serve_answers`: it holds of every connection
-/

set_option autoImplicit false

namespace BackupVault.Backup

/-! ## §1 What is sent -/

/-- The response that is sent: a failure of the server in place of one that is too large. -/
def sent (r : Response) : Response :=
  if r.body.payload.size ≤ maxPayload then r else { r with body := .serverError }

theorem version_sent (r : Response) : (sent r).version = r.version := by
  unfold sent
  split <;> rfl

/-- Any response is sent as a whole, provided that its text fits. -/
theorem encode_sent {r : Response} (h : (Bytes.ofText r.body.text).size ≤ maxText) :
    (sent r).encode = .ok (responseBytes r) := by
  have hunless := r.encode_unless
  unfold sent responseBytes
  rcases Nat.lt_or_ge maxPayload r.body.payload.size with hlarge | hfits
  · rw [oversize_of_payload h hlarge] at hunless
    have hfailed : r.encode = .error _ := hunless
    rw [if_neg (Nat.not_le.mpr hlarge), hfailed]
    rfl
  · obtain ⟨b, hb⟩ := hunless.done (oversize_eq_none.mpr ⟨h, hfits⟩)
    rw [if_pos hfits, hb]

theorem labelAlphabet_small (n : Nat) : (labelAlphabet.getD n 'A').toNat < 128 := by
  have hall : labelAlphabet.all (·.toNat < 128) = true := by decide
  rw [List.getD_eq_getElem?_getD]
  cases hc : labelAlphabet[n]? with
  | none => decide
  | some c => exact of_decide_eq_true (List.all_eq_true.mp hall c (List.mem_of_getElem? hc))

/-- A label takes one byte for each of its characters. -/
theorem size_label (e : Entropy) : (Bytes.ofText (label e).1).size = labelSize := by
  rw [Bytes.size_ofText_of_ascii]
  · simp [label, Entropy.draw, Bytes.ofList]
  · intro c hc
    simp only [label, String.toList_ofList, List.mem_map] at hc
    obtain ⟨x, -, rfl⟩ := hc
    exact labelAlphabet_small _

theorem label_le (e : Entropy) : (Bytes.ofText (label e).1).size ≤ maxText := by
  rw [size_label]
  decide

/-- The text of a response is the label, or the name that was asked for, if any. -/
theorem text_bodyFor (label : String) (body : RequestBody) (told : Registry.Told) :
    (bodyFor label body told).text ∈ [label, body.text, ""] := by
  cases told with
  | error e => cases body <;> cases e <;> simp [bodyFor, refusal, ResponseBody.text,
      RequestBody.text, RequestBody.filename?]
  | ok a => cases body <;> cases a <;> simp [bodyFor, bodyOf, ResponseBody.text,
      RequestBody.text, RequestBody.filename?]

section Answers

variable {version : UInt8} {label : String} {request : Request}

/-- The text of a response fits, as the name in the request does. -/
theorem text_answer_le (hlabel : (Bytes.ofText label).size ≤ maxText)
    (hname : (Bytes.ofText request.body.text).size ≤ maxText) (s : Storage) :
    (Bytes.ofText (answer version label request s).1.body.text).size ≤ maxText := by
  rw [answer_eq]
  have htext := text_bodyFor label request.body
    (outcome ((callOf request.user request.body).perform s))
  simp only [List.mem_cons, List.not_mem_nil, or_false] at htext
  change (Bytes.ofText (bodyFor label request.body _).text).size ≤ maxText
  rcases htext with h | h | h
  · rwa [h]
  · rwa [h]
  · rw [h]
    exact Nat.zero_le _

theorem version_answer (s : Storage) : (answer version label request s).1.version = version := by
  rw [answer_eq]

end Answers

/-! ## §2 Requests that come in -/

section Incoming

variable {version : UInt8} {incoming incoming' r r' : Reader} {request : Request} {b rest : Bytes}

/-- A request that was read fits. -/
theorem fits_of_decode (h : Request.decode version incoming = .ok request r) :
    (Bytes.ofText request.body.text).size ≤ maxText ∧
      request.body.payload.size ≤ maxPayload := by
  obtain ⟨-, b, hb, -⟩ := Request.encode_of_decode h
  exact oversize_eq_none.mp (request.encode_unless.eq_none hb)

/-- A request was read off its bytes, and is read off them whatever follows and however they come
in. -/
theorem decode_again (h : Request.decode version incoming = .ok request r) :
    ∃ b, incoming.unread = b ++ r.unread ∧ ∀ incoming' rest, Reader.unread incoming' = b ++ rest →
      ∃ r', Request.decode version incoming' = .ok request r' := by
  obtain ⟨rfl, b, hb, p⟩ := Request.encode_of_decode h
  refine ⟨b, p.unread, fun incoming' rest hincoming => ?_⟩
  obtain ⟨r', hr', -⟩ := (Request.takes_of_encode hb).whole incoming' rest hincoming
  exact ⟨r', hr'⟩

theorem respond_of_decode (h : Request.decode version incoming = .ok request r) (label : String)
    (s : Storage) : respond version label incoming s = answer version label request s := by
  rw [respond, h]

theorem respond_of_refused {e : WireError} (h : Request.decode version incoming = .error e r)
    (label : String) (s : Storage) :
    respond version label incoming s = ({ version, body := .serverError }, s) := by
  rw [respond, h]

/-- How the bytes come in makes no difference. -/
theorem respond_congr (h : incoming'.unread = incoming.unread) (label : String) (s : Storage) :
    respond version label incoming' s = respond version label incoming s := by
  cases hdecode : Request.decode version incoming with
  | ok request r =>
    obtain ⟨b, hb, hagain⟩ := decode_again hdecode
    obtain ⟨r', hr'⟩ := hagain incoming' r.unread (h.trans hb)
    rw [respond_of_decode hdecode, respond_of_decode hr']
  | error e r =>
    -- If the other reader gave a request, so would this one.
    cases hdecode' : Request.decode version incoming' with
    | ok request r' =>
      obtain ⟨b, hb, hagain⟩ := decode_again hdecode'
      obtain ⟨r'', hr''⟩ := hagain incoming r'.unread (h.symm.trans hb)
      rw [hdecode] at hr''
      cases hr''
    | error e' r' => rw [respond_of_refused hdecode, respond_of_refused hdecode']

/-- The response is one that fits, its payload aside. -/
theorem text_respond_le (version : UInt8) {label : String}
    (hlabel : (Bytes.ofText label).size ≤ maxText) (incoming : Reader) (s : Storage) :
    (Bytes.ofText (respond version label incoming s).1.body.text).size ≤ maxText := by
  cases hdecode : Request.decode version incoming with
  | ok request r =>
    rw [respond_of_decode hdecode]
    exact text_answer_le hlabel (fits_of_decode hdecode).1 s
  | error e r =>
    rw [respond_of_refused hdecode]
    exact Nat.zero_le _

theorem version_respond (version : UInt8) (label : String) (incoming : Reader) (s : Storage) :
    (respond version label incoming s).1.version = version := by
  cases hdecode : Request.decode version incoming with
  | ok request r =>
    rw [respond_of_decode hdecode]
    exact version_answer s
  | error e r => rw [respond_of_refused hdecode]

end Incoming

/-! ## §3 One connection -/

/-- What a connection leaves behind, whatever the peer still reads. -/
theorem storage_serve (version : UInt8) (label : String) (incoming : Reader) (outgoing : Sink)
    (s : Storage) : (serve version label incoming outgoing s).storage =
      (respond version label incoming s).2 := by
  unfold serve
  dsimp only
  split <;> rfl

/-- A connection on which all can be written. -/
theorem serve_eq (version : UInt8) (label : String) (incoming : Reader) (s : Storage) :
    serve version label incoming {} s =
      { storage := (respond version label incoming s).2
        outgoing := { written := responseBytes (respond version label incoming s).1 }
        closed := true } := by
  simp only [serve, Sink.write, ByteArray.empty_append]

/-- What can be expected of one connection, on which all can be written. -/
structure Answered (version : UInt8) (label : String) (incoming : Reader) (s : Storage)
    (response : Response) : Prop where
  closed : (serve version label incoming {} s).closed = true
  /-- What was written is the response, of the version of the server, and nothing else. -/
  written : response.version = version ∧
    response.encode = .ok (serve version label incoming {} s).outgoing.written
  /-- A reader that expects this version takes the response from it and has no byte left. -/
  read : Closes (Response.decode version) (serve version label incoming {} s).outgoing.written
    response
  /-- What is no request is answered by a failure of the server, and changes nothing. -/
  refused : ∀ e r, Request.decode version incoming = .error e r →
    response.body = .serverError ∧ (serve version label incoming {} s).storage = s
  /-- A request is done, and answered by what came of it unless that is too large. -/
  performed : ∀ request r, Request.decode version incoming = .ok request r →
    response = sent (answer version label request s).1 ∧
      (serve version label incoming {} s).storage = (answer version label request s).2
  /-- How the bytes are cut, and how the stream ends, makes no difference. -/
  chunked : ∀ incoming' : Reader, incoming'.unread = incoming.unread →
    serve version label incoming' {} s = serve version label incoming {} s
  /-- A request is some bytes at the front; whatever follows them makes no difference. -/
  followed : ∀ request r, Request.decode version incoming = .ok request r →
    ∃ b, incoming.unread = b ++ r.unread ∧ ∀ incoming' rest, Reader.unread incoming' = b ++ rest →
      serve version label incoming' {} s = serve version label incoming {} s

/-- **One answer**: whatever the storage and whatever comes in, one response goes out. -/
theorem serve_answers (version : UInt8) (e : Entropy) (incoming : Reader) (s : Storage) :
    ∃ response, Answered version (label e).1 incoming s response := by
  have hversion := version_respond version (label e).1 incoming s
  have hencode := encode_sent (text_respond_le version (label_le e) incoming s)
  have htakes := Response.takes_of_encode hencode
  rw [version_sent, hversion] at htakes
  refine ⟨sent (respond version (label e).1 incoming s).1, ?_, ?_, ?_, ?_, ?_, ?_, ?_⟩
  · rw [serve_eq]
  · rw [serve_eq]
    exact ⟨(version_sent _).trans hversion, hencode⟩
  · rw [serve_eq]
    exact htakes.closes
  · intro e' r hdecode
    rw [serve_eq, respond_of_refused hdecode]
    exact ⟨rfl, rfl⟩
  · intro request r hdecode
    rw [serve_eq, respond_of_decode hdecode]
    exact ⟨rfl, rfl⟩
  · intro incoming' h
    rw [serve_eq, serve_eq, respond_congr h]
  · intro request r hdecode
    obtain ⟨b, hb, hagain⟩ := decode_again hdecode
    refine ⟨b, hb, fun incoming' rest h => ?_⟩
    obtain ⟨r', hr'⟩ := hagain incoming' rest h
    rw [serve_eq, serve_eq, respond_of_decode hdecode, respond_of_decode hr']

end BackupVault.Backup
