import BackupVault.Proofs.Upload.SessionConduct
import BackupVault.Proofs.Upload.Uploaded

/-!
# Where the files of sessions come from

Each file that a session stores is the content of the upload before it, which the same client sent
and then accepted.  It is the plain content, if the upload decrypts under the key of the session;
otherwise it is what came in, and then the client has accepted the checksum of just that.

## Overview

- `Session.Delivered`: what the log tells of the upload that a file came from
- `sessions_store_uploads`: every file was delivered, in every session under every schedule
- `Site.Alone`: a session that has a site for itself, to run an upload step by step
-/

set_option autoImplicit false

namespace BackupVault

namespace Session

/-! ## §1 Deliveries -/

/-- What becomes of an upload: its plain content, or all of it if it does not decrypt. -/
inductive Opened (key : SessionKey) (encrypted : Bytes) : Bytes → Prop where
  | plain {content : Bytes} (h : key.decrypt encrypted = .ok content) :
      Opened key encrypted content
  | raw {e : CryptoError} (h : key.decrypt encrypted = .error e) : Opened key encrypted encrypted

theorem opened_plainContent (key : SessionKey) (encrypted : Bytes) :
    Opened key encrypted (plainContent key encrypted) := by
  unfold plainContent
  cases h : key.decrypt encrypted with
  | ok content => exact .plain h
  | error e => exact .raw h

/-- The last three events deliver a file: a client uploads it under the only session key, is told
size and checksum of what it was opened to, and accepts. -/
structure Delivers (before : List Event) (user : UserId) (filename : String) (content : Bytes)
    (client : ClientId) (key : SessionKey) (name : Name) (encrypted : Bytes)
    (sent verdict : ClientMessage) : Prop where
  user : user = client.storageId
  filename : name.toText = .ok filename
  exchanged : Exchanged before client key
  sender : sent.sender = client
  body : sent.body = .upload name encrypted
  opened : Opened key encrypted content
  judge : verdict.sender = client
  accepts : verdict.body.code = .accept
  told : ∃ L size, size.toNat = content.size ∧
    before = L ++ [.heard sent, .said (.uploaded client size name (cksum content)), .heard verdict]

/-- A file was delivered to a session just now. -/
def Delivered (before : List Event) (user : UserId) (filename : String) (content : Bytes) : Prop :=
  ∃ client key name encrypted sent verdict,
    Delivers before user filename content client key name encrypted sent verdict

theorem delivered_of_allowed {L : List Event} {user : UserId} {filename : String}
    {content : Bytes} {outcome : Except StorageError Path}
    (h : Allowed L (.stored user filename content outcome)) :
    Delivered L user filename content := by
  obtain ⟨client, key, name, hexchanged, huser, hname, haccepted⟩ := h
  obtain ⟨L', verdict, rfl, hjudge, haccepts, hpending⟩ := haccepted
  obtain ⟨L, sent, encrypted, size, rfl, hsender, hbody, rfl, hsize⟩ := hpending
  exact ⟨client, key, name, encrypted, sent, verdict, huser, hname, hexchanged, hsender, hbody,
    opened_plainContent key encrypted, hjudge, haccepts, L, size, hsize, List.append_assoc ..⟩

end Session

open Session

/-- **What sessions store.**  Under every schedule each file that any session stores was delivered to
it just before, as the upload that its client accepted, opened with the only key of the session; an
upload that the client does not accept at once is never stored.  The events that are logged account
for all that a session does to the vault. -/
theorem sessions_store_uploads {vault : Vault} {schedule : List Site.Act} {c : Conversation}
    {L : List Event} (hmem : (c, L) ∈ (Site.run vault schedule).sessions) :
    (∀ before user filename content outcome after,
      L = before ++ .stored user filename content outcome :: after →
        Delivered before user filename content) ∧
      ∀ v, (c.step v).2 = effects (c.events v) v := by
  obtain ⟨-, -, hord⟩ := Site.kept_run vault schedule c L hmem
  refine ⟨fun before user filename content outcome after hL => ?_, c.step_effects⟩
  exact delivered_of_allowed (hord before _ after hL)

/-! ## §2 A session for itself -/

namespace Conversation

/-- An answer that can be encoded is sent. -/
theorem replies_of_answers {c : Conversation} (hlimit : c.outgoing.limit = none) {turn : Turn}
    {d : Bytes} (h : Link.Answers c.version turn.reply d) :
    c.replies turn = turn.reply.toList.map .said := by
  unfold replies
  cases hreply : turn.reply with
  | none => rfl
  | some body =>
    rw [hreply] at h
    have henc : ServerMessage.encode { version := c.version, body } = .ok d := h
    simp only [henc, Sink.write_of_unlimited hlimit]
    rfl

end Conversation

namespace Site

/-- Under some schedule the only session of a site comes to a phase, with some bytes that it has
not read yet. -/
def Alone (v₀ : Vault) (version : UInt8) (phase : Phase) (unread : Bytes) (v : Vault)
    (L : List Event) : Prop :=
  ∃ schedule c, run v₀ schedule = { vault := v, sessions := [(c, L)] } ∧ c.version = version ∧
    c.phase = phase ∧ c.incoming.unread = unread ∧ c.outgoing.limit = none

variable {v₀ v : Vault} {version : UInt8} {phase : Phase} {L : List Event} {id : ClientId}
  {file : Name} {filename : String} {uploaded unread : Bytes} {R : Location}

theorem alone_opens (v₀ : Vault) (version : UInt8) (b : Bytes) :
    Alone v₀ version .greeting b v₀ [] :=
  ⟨[.opens version (.ofBytes b)], { version, incoming := .ofBytes b }, rfl, rfl, rfl,
    Reader.unread_ofBytes b, rfl⟩

namespace Alone

theorem run_moves {schedule : List Act} {c : Conversation}
    (h : run v₀ schedule = { vault := v, sessions := [(c, L)] }) :
    run v₀ (schedule ++ [.moves 0]) =
      { vault := (c.step v).2, sessions := [((c.step v).1, L ++ c.events v)] } := by
  rw [run, List.foldl_append, ← run, h]
  rfl

theorem heard {b d : Bytes} {m : ClientMessage} {turn : Turn}
    (h : Alone v₀ version phase (b ++ unread) v L) (hwaits : Conversation.Waits phase)
    (hm : m.encode = .ok b) (hversion : m.version = version) (hturn : hear phase m = turn)
    (hd : Link.Answers version turn.reply d) :
    Alone v₀ version turn.phase unread v (L ++ .heard m :: turn.reply.toList.map .said) := by
  obtain ⟨schedule, c, hrun, rfl, rfl, hunread, hlimit⟩ := h
  -- The message is at the beginning of what there is to read.
  obtain ⟨r, hdecode, p⟩ := (ClientMessage.takes_of_encode hm).whole c.incoming unread hunread
  rw [hversion] at hdecode
  obtain ⟨hstep, hevents⟩ := Conversation.step_of_waits (v := v) hwaits
  rw [hdecode] at hevents
  change c.events v = .heard m :: c.replies (hear c.phase m) at hevents
  have hhear : c.hear = { c with incoming := r }.take turn := by
    simp only [Conversation.hear, hdecode, hturn]
  have hrun' := run_moves hrun
  rw [hstep, hevents, hturn, Conversation.replies_of_answers hlimit hd, hhear,
    Link.take_of_answers (c := { c with incoming := r }) hlimit hd] at hrun'
  exact ⟨_, _, hrun', rfl, rfl, p.unread_eq hunread, hlimit⟩

theorem acted {d : Bytes} {x : Vaulted Turn} {turn : Turn} {v' : Vault}
    (h : Alone v₀ version phase unread v L) (hx : action? phase = some x)
    (hdone : x v = .ok turn v') (hd : Link.Answers version turn.reply d) :
    Alone v₀ version turn.phase unread v'
      (L ++ ((deed? phase v).toList ++ turn.reply.toList.map .said)) := by
  obtain ⟨schedule, c, hrun, rfl, rfl, hunread, hlimit⟩ := h
  obtain ⟨hstep, hevents⟩ := Conversation.step_of_action (v := v) hx
  have hact : Session.act x v = (turn, v') := by rw [Session.act, hdone]
  have hrun' := run_moves hrun
  rw [hstep, hevents, hact, Conversation.replies_of_answers hlimit hd,
    Link.take_of_answers hlimit hd] at hrun'
  exact ⟨_, _, hrun', rfl, rfl, hunread, hlimit⟩

theorem storing_of_store {client : ClientId} {content : Bytes} {v v' : Vault} {path : Path}
    (h : Vault.store client filename content v = .ok path v') :
    (storing client.storageId filename content v).1 = .ok path := by
  unfold Vault.store Vault.registered at h
  unfold storing
  cases hstore : Registry.store client.storageId filename content v.storage with
  | ok path' s =>
    rw [hstore] at h
    cases h
    rfl
  | error e s =>
    rw [hstore] at h
    cases h

/-- A client that is known presents its public key and gets a session key. -/
theorem keyed {b : Bytes} (h : Alone v₀ version .greeting (b ++ unread) v []) (hv : v.Sound R)
    {r : ClientRecord} (hr : v.clients.find? id = some r) {keys : KeyPair} (hkeys : keys.Works)
    {name : Name} (hname : name.toText = .ok r.name) (hb : ClientMessage.encode
      { sender := id, version, body := .publicKey name keys.publicDer } = .ok b) :
    ∃ v' encrypted, v'.Sound R ∧ Vault.SameFiles R v.files v'.files ∧
      Alone v₀ version (.receiving id (SessionKey.generate v.entropy).1) unread v'
        [.heard { sender := id, version, body := .publicKey name keys.publicDer },
          .lookedUp id, .issued id keys.publicKey (SessionKey.generate v.entropy).1,
          .said (.sessionKey id encrypted)] := by
  have hpresented := h.heard Conversation.waits_greeting hb rfl rfl (d := ByteArray.empty) rfl
  have hfound := hpresented.acted rfl (Session.actIdentify_ok hr hname hkeys.accepted)
    (d := ByteArray.empty) rfl
  obtain ⟨key, encrypted, v', hissue, -, hcipher, hv', hsame⟩ :=
    Session.actIssue_ok hv hr hkeys.room
  obtain rfl := key_of_issue hissue
  -- The key is no longer than a public key may be, so that the answer fits into a payload.
  have hbound := PublicKey.size_le (PublicKey.isAcceptable_of_ofDer hkeys.accepted)
  obtain ⟨d, hd⟩ := ServerMessage.encode_eq_ok
    (m := { version, body := .sessionKey id encrypted }) (by
      change 16 + encrypted.size ≤ 67108864
      omega)
  exact ⟨v', encrypted, hv', hsame, hfound.acted rfl hissue hd⟩

/-- What a client uploads and accepts is stored, as it was opened. -/
theorem filed {key : SessionKey} {b₁ b₂ : Bytes}
    (h : Alone v₀ version (.receiving id key) (b₁ ++ (b₂ ++ unread)) v L) (hv : v.Sound R)
    (hb₁ : ClientMessage.encode { sender := id, version, body := .upload file uploaded } = .ok b₁)
    (hb₂ : ClientMessage.encode { sender := id, version, body := .accept file } = .ok b₂)
    (hfile : file.toText = .ok filename) (hplain : isPlainFilename filename = true)
    (hlength : (Bytes.ofText filename).size ≤ FileTree.maxSegment)
    (hnew : v.files.lookup (Registry.fileAt R id.storageId (Bytes.ofText filename)) = none) :
    ∃ v' path content, content = plainContent key uploaded ∧
      v'.Stored id.storageId filename content ∧
      Alone v₀ version (.ended (.ok ())) unread v'
        (L ++ [.heard { sender := id, version, body := .upload file uploaded },
          .said (.uploaded id (UInt32.ofNat content.size) file (cksum content)),
          .heard { sender := id, version, body := .accept file },
          .stored id.storageId filename content (.ok path), .said .success]) := by
  obtain ⟨content, hcontent⟩ : ∃ content, content = plainContent key uploaded := ⟨_, rfl⟩
  -- The upload is acknowledged,
  obtain ⟨d, hd⟩ := ServerMessage.encode_eq_ok (m := {
    version, body := .uploaded id (UInt32.ofNat content.size) file (cksum content) })
    (Nat.le_of_ble_eq_true rfl)
  have hopened : hear (.receiving id key) { sender := id, version, body := .upload file uploaded } =
      { phase := .judging id key file content
        reply := some (.uploaded id (UInt32.ofNat content.size) file (cksum content)) } := by
    simp only [hear, fromClient, ↓reduceIte, hearUpload, ← hcontent]
  have hjudging := h.heard (Conversation.waits_receiving id key) hb₁ rfl hopened hd
  -- and accepted, to be stored.
  have haccepted : hear (.judging id key file content) { sender := id, version, body := .accept file } =
      { phase := .storing id filename content } := by
    simp only [hear, fromClient, ↓reduceIte, hearVerdict, hfile]
  have hstoring := hjudging.heard (Conversation.waits_judging id key file content) hb₂ rfl haccepted
    (d := ByteArray.empty) rfl
  obtain ⟨path, v', hstore, hstored⟩ := hv.store hplain hlength hnew content
  obtain ⟨d', hd'⟩ := ServerMessage.encode_eq_ok (m := { version, body := .success })
    (Nat.zero_le _)
  have hended := hstoring.acted rfl (Session.actStore_ok hstore) hd'
  have hdeed : deed? (.storing id filename content) v =
      some (.stored id.storageId filename content (.ok path)) := by
    rw [deed?, storing_of_store hstore]
  rw [hdeed] at hended
  exact ⟨v', path, content, hcontent, hstored, by simpa using hended⟩

end Alone

theorem mem_of_run {schedule : List Act} {c : Conversation}
    (h : run v₀ schedule = { vault := v, sessions := [(c, L)] }) :
    (c, L) ∈ (run v₀ schedule).sessions := by
  rw [h]
  exact List.mem_singleton_self _

/-- A client that is known, with a key pair that works, uploads anything under a new name and
accepts what it is told of it.  It need not wait for the answers. -/
theorem run_upload (hv : v.Sound R) {r : ClientRecord} (hr : v.clients.find? id = some r)
    {keys : KeyPair} (hkeys : keys.Works) {name : Name} (hname : name.toText = .ok r.name)
    (hfile : file.toText = .ok filename) (hplain : isPlainFilename filename = true)
    (hlength : (Bytes.ofText filename).size ≤ FileTree.maxSegment)
    (hnew : v.files.lookup (Registry.fileAt R id.storageId (Bytes.ofText filename)) = none)
    (hsize : nameCapacity + 4 + uploaded.size ≤ maxPayload) (version : UInt8) :
    ∃ schedule c v' encrypted path content,
      content = plainContent (SessionKey.generate v.entropy).1 uploaded ∧
      v'.Stored id.storageId filename content ∧
      run v schedule = {
        vault := v'
        sessions := [(c, [
          .heard { sender := id, version, body := .publicKey name keys.publicDer },
          .lookedUp id, .issued id keys.publicKey (SessionKey.generate v.entropy).1,
          .said (.sessionKey id encrypted),
          .heard { sender := id, version, body := .upload file uploaded },
          .said (.uploaded id (UInt32.ofNat content.size) file (cksum content)),
          .heard { sender := id, version, body := .accept file },
          .stored id.storageId filename content (.ok path), .said .success])] } := by
  -- All messages can be encoded, since an accepted public key is not too long.
  have hder := PublicKey.size_toDer_le (PublicKey.isAcceptable_of_ofDer hkeys.accepted)
  obtain ⟨b₁, hb₁⟩ := ClientMessage.encode_eq_ok
    (m := { sender := id, version, body := .publicKey name keys.publicDer }) (by
      change 255 + keys.publicKey.toDer.size ≤ 67108864
      omega)
  obtain ⟨b₂, hb₂⟩ := ClientMessage.encode_eq_ok
    (m := { sender := id, version, body := .upload file uploaded }) hsize
  obtain ⟨b₃, hb₃⟩ := ClientMessage.encode_eq_ok
    (m := { sender := id, version, body := .accept file }) (Nat.le_of_ble_eq_true rfl)
  have hopens := alone_opens v version (b₁ ++ (b₂ ++ (b₃ ++ ByteArray.empty)))
  obtain ⟨v₁, encrypted, hv₁, hsame, hkeyed⟩ := hopens.keyed hv hr hkeys hname hb₁
  -- Issuing a key leaves the place of the file empty.
  obtain ⟨v₂, path, content, hcontent, hstored, schedule, c, hrun, -⟩ :=
    hkeyed.filed hv₁ hb₂ hb₃ hfile hplain hlength ((hsame _ _).trans hnew)
  exact ⟨schedule, c, v₂, encrypted, path, content, hcontent, hstored, hrun⟩

end Site

/-! ## §3 Two uploads -/

/-- The record of a client that was registered, and has not presented a key. -/
def ClientRecord.alice : ClientRecord where
  id := ClientId.padded (Bytes.ofList [7])
  name := "alice"
  publicKey := none
  sessionKey := none
  lastSeen := { seconds := 0, nanos := 0 }

/-- A vault that knows one client and keeps no files. -/
def Vault.staffed : Vault :=
  { Vault.blank with clients := { Vault.blank.clients with records := [ClientRecord.alice] } }

theorem Vault.staffed_sound : staffed.Sound [] := ⟨blank_sound.layout, blank_sound.desk⟩

/-- The key of the first session with this vault. -/
def Vault.firstKey : SessionKey := (SessionKey.generate staffed.entropy).1

/-- The client uploads something as its notes, and accepts what it is told of it. -/
theorem Site.notes_uploaded {uploaded : Bytes}
    (hsize : nameCapacity + 4 + uploaded.size ≤ maxPayload) :
    ∃ schedule c v name file encrypted path content,
      content = plainContent Vault.firstKey uploaded ∧
      run Vault.staffed schedule = {
        vault := v
        sessions := [(c, [
          .heard ⟨ClientRecord.alice.id, 3, .publicKey name KeyPair.simple.publicDer⟩,
          .lookedUp ClientRecord.alice.id,
          .issued ClientRecord.alice.id KeyPair.simple.publicKey Vault.firstKey,
          .said (.sessionKey ClientRecord.alice.id encrypted),
          .heard ⟨ClientRecord.alice.id, 3, .upload file uploaded⟩,
          .said (.uploaded ClientRecord.alice.id (UInt32.ofNat content.size) file (cksum content)),
          .heard ⟨ClientRecord.alice.id, 3, .accept file⟩,
          .stored ClientRecord.alice.id.storageId "notes.txt" content (.ok path),
          .said .success])] } := by
  obtain ⟨name, -, hname⟩ := Name.ofText_eq_ok (s := "alice") (by decide) (by decide)
  obtain ⟨file, -, hfile⟩ := Name.ofText_eq_ok (s := "notes.txt") (by decide) (by decide)
  have hknown : Vault.staffed.clients.find? ClientRecord.alice.id = some ClientRecord.alice := rfl
  obtain ⟨schedule, c, v, encrypted, path, content, hcontent, -, hrun⟩ :=
    run_upload Vault.staffed_sound hknown KeyPair.simple_works hname hfile (by decide) (by decide)
      rfl hsize 3
  exact ⟨schedule, c, v, name, file, encrypted, path, content, hcontent, hrun⟩

/-- Notes that decrypt are stored as their plain content. -/
theorem sessions_store_notes : ∃ schedule c L before path after,
    (c, L) ∈ (Site.run Vault.staffed schedule).sessions ∧
      L = before ++ .stored ClientRecord.alice.id.storageId "notes.txt" (Bytes.ofText "hello")
        (.ok path) :: after ∧
      Delivered before ClientRecord.alice.id.storageId "notes.txt" (Bytes.ofText "hello") := by
  have hsize : nameCapacity + 4 + (Vault.firstKey.encrypt (Bytes.ofText "hello")).size ≤
      maxPayload := by
    rw [SessionKey.size_encrypt]
    decide
  obtain ⟨schedule, c, v, name, file, encrypted, path, content, hcontent, hrun⟩ :=
    Site.notes_uploaded hsize
  obtain rfl : content = Bytes.ofText "hello" := hcontent.trans (plainContent_encrypt _ _)
  have hmem := Site.mem_of_run hrun
  exact ⟨schedule, c, _, [_, _, _, _, _, _, _], path, [.said .success], hmem, rfl,
    (sessions_store_uploads hmem).1 _ _ _ _ _ _ rfl⟩

/-- No upload in this session decrypts under its key, and still a file is stored. -/
theorem undecryptable_stored : ∃ schedule c L path,
    (c, L) ∈ (Site.run Vault.staffed schedule).sessions ∧
      .stored ClientRecord.alice.id.storageId "notes.txt" (Bytes.ofList [1]) (.ok path) ∈ L ∧
      ∀ m filename content, .heard m ∈ L → m.body = .upload filename content →
        ∀ key ∈ keys L, ∀ plain, key.decrypt content ≠ .ok plain := by
  have hsize : nameCapacity + 4 + (Bytes.ofList [1]).size ≤ maxPayload := by decide
  obtain ⟨schedule, c, v, name, file, encrypted, path, content, hcontent, hrun⟩ :=
    Site.notes_uploaded hsize
  -- One byte is no whole number of blocks.
  have hrefused (key : SessionKey) : ∃ e, key.decrypt (Bytes.ofList [1]) = .error e :=
    key.decrypt_of_size (by decide)
  have hraw : content = Bytes.ofList [1] := by
    obtain ⟨e, he⟩ := hrefused Vault.firstKey
    rw [hcontent]
    simp only [plainContent, he]
  subst hraw
  refine ⟨schedule, c, _, path, Site.mem_of_run hrun, by simp, ?_⟩
  intro m filename content hm hbody key _ plain h
  -- It is all that was uploaded.
  have hcontent : content = Bytes.ofList [1] := by
    simp only [List.mem_cons, Event.heard.injEq, reduceCtorEq, List.not_mem_nil, or_false,
      false_or] at hm
    rcases hm with rfl | rfl | rfl <;> cases hbody
    rfl
  obtain ⟨e, he⟩ := hrefused key
  rw [hcontent, he] at h
  cases h

end BackupVault
