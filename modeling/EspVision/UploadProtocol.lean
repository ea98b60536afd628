import EspVision.FileTransfer

/-!
# The host's upload and the device's handler

`DeviceSession.writeFile` and `ev_control_handle_file_write` exchange requests and responses over
a link that loses and delays them. Requests carry a number of their own, and a response is taken
only for the request that waits for it. Texts that the JSON layer carries unchanged are values
here. Everything that the device asks for during a call is an answer to it.
-/
namespace EspVision.Upload

open EvSession (Snapshot)
open EvFileTransfer FileSystem TransitionSystem

/-! ## The handler -/

/-- The `action` member. -/
inductive Action
  | begin | commit | abort | other
  deriving DecidableEq

/-- The `mode` member. -/
inductive Mode
  | create | overwrite | other
  deriving DecidableEq

/-- The members that the handler reads. -/
structure Fields where
  action : Action
  path : Option Path := none
  mode : Option Mode := none
  totalBytes : Option UInt32 := none
  sha256 : Option Path := none
  uploadId : Option Path := none

/-- A `file.write` payload; `none` when `ev_control_json_parse_object` refuses it. -/
inductive Body
  | binary (payload : List UInt8)
  | json (fields : Option Fields)

/-- `EV_CONTROL_PATH_MAX`. -/
def pathMax : ℕ := 123

/-- `ev_control_path_allowed`. -/
def pathAllowed (path : Path) : Bool :=
  path ≠ [] && path.length ≤ pathMax && !decide ([0x2e, 0x2e] <:+: path) &&
    !decide ([0x2f, 0x2f] <:+: path) && !path.any unsafeByte

/-- The answers of the device's surroundings, whatever the request asks for. -/
structure Answers where
  begin : BeginAnswers
  write : WriteAnswers
  finish : EndAnswers

/-- `ev_control_handle_file_write`, as far as the call that it makes; `none` is
`INVALID_ARGUMENT` without a call. -/
def route (owner : Snapshot) (a : Answers) : Body → Option Call
  | .binary payload => some (.write owner payload a.write)
  | .json none => none
  | .json (some f) =>
    match f.action with
    | .begin =>
      match f.path, f.totalBytes, f.sha256, f.uploadId with
      | some path, some total, some sha256, some uploadId =>
        if !pathAllowed path || f.mode == some .other then none
        else some (.begin ⟨owner, some path, f.mode != some .create, total, some sha256, uploadId⟩
          a.begin)
      | _, _, _, _ => none
    | .commit => f.uploadId.map fun uploadId => .finish owner (some uploadId) true a.finish
    | .abort => f.uploadId.map fun uploadId => .finish owner (some uploadId) false a.finish
    | .other => none

/-- What the host reads of a response. -/
inductive Response
  | begun (uploadId : Path) (chunkBytes : ℕ)
  | written (bytes : UInt32)
  | ended (bytes : UInt32) (complete : Bool)
  | error

/-- The response that the handler sends after a call. -/
def respond (sha256 : List UInt8 → List UInt8) (s : State) : Call → Response
  | .begin r a =>
    match (EvFileTransfer.begin s r a).2 with
    | none => .begun r.uploadId chunkBytes
    | some _ => .error
  | .write owner payload a =>
    match (EvFileTransfer.write s owner payload a).2 with
    | (none, received) => .written (received.getD 0)
    | (some _, _) => .error
  | .finish owner uploadId commit a =>
    match (EvFileTransfer.finish sha256 s owner uploadId commit a).2 with
    | (none, received) => .ended (received.getD 0) commit
    | (some _, _) => .error
  | _ => .error

/-! ## The host -/

/-- A digit of `toString(16)`. -/
def hexChar (n : UInt8) : UInt8 := if n < 10 then 0x30 + n else 0x57 + n

/-- `toString(16).padStart(2, '0')` of each byte. -/
def hexText (bytes : List UInt8) : Path :=
  bytes.flatMap fun b => [hexChar (b / 16), hexChar (b % 16)]

/-- The arguments of one `writeFile`, its random upload id, and the negotiated chunk limit. -/
structure Job where
  path : Path
  mode : Mode
  id : List UInt8
  limit : ℕ
  id_length : id.length = 16

/-- The file that the upload is for. -/
def Job.target (job : Job) : Path := targetOf job.path

/-- The text of the upload id. -/
def Job.uploadId (job : Job) : Path := hexText job.id

/-- `setUint32` in little-endian order. -/
def le32 (n : ℕ) : List UInt8 :=
  [(n % 256).toUInt8, (n / 256 % 256).toUInt8, (n / 65536 % 256).toUInt8,
    (n / 16777216 % 256).toUInt8]

/-- What the host sends. -/
inductive Request
  | begin (total : ℕ) (digest : List UInt8)
  | chunk (offset : ℕ) (data : List UInt8)
  | commit | abort

def Request.body (job : Job) : Request → Body
  | .begin total digest => .json (some
      { action := .begin, path := some job.path, mode := some job.mode,
        totalBytes := some total.toUInt32, sha256 := some (hexText digest),
        uploadId := some job.uploadId })
  | .chunk offset data => .binary (job.id ++ le32 offset ++ data)
  | .commit => .json (some { action := .commit, uploadId := some job.uploadId })
  | .abort => .json (some { action := .abort, uploadId := some job.uploadId })

/-- The request that the loop waits for. -/
inductive Rpc
  | begin
  | chunk (offset size : ℕ)
  | commit
  deriving DecidableEq

/-- Where `writeFile` stands; after the commit it may still report progress and run the script. -/
inductive HostPhase
  | called | hashed
  | waiting (rpc : Rpc) (seq : ℕ)
  | committed
  | cleaning
  | resolved | rejected
  deriving DecidableEq

/-- The host, with the bytes of the caller's array now and when they were hashed. -/
structure Host where
  phase : HostPhase := .called
  content : List UInt8
  hashed : List UInt8 := []
  next : ℕ := 0
  deriving DecidableEq

/-- The next turn of the loop: a chunk or the commit. -/
def Host.turn (job : Job) (host : Host) (offset : ℕ) : Rpc × Request :=
  if offset < host.content.length then
    let chunk := (host.content.drop offset).take
      (min (offset + job.limit) host.content.length - offset)
    (.chunk offset chunk.length, .chunk offset chunk)
  else (.commit, .commit)

/-- What the loop makes of a response. -/
inductive Verdict
  | send (rpc : Rpc) (request : Request)
  | done
  | failure

/-- The checks on a response, and the next request. -/
def Host.judge (job : Job) (host : Host) : Rpc → Response → Verdict
  | .begin, .begun uploadId chunkBytes =>
    if uploadId = job.uploadId ∧ chunkBytes = job.limit then
      .send (host.turn job 0).1 (host.turn job 0).2
    else .failure
  | .chunk offset size, .written bytes =>
    if bytes.toNat = offset + size then
      .send (host.turn job (offset + job.limit)).1 (host.turn job (offset + job.limit)).2
    else .failure
  | .commit, .ended bytes complete =>
    if complete = true ∧ bytes.toNat = host.content.length then .done else .failure
  | _, _ => .failure

/-! ## Both together -/

/-- The host, the device, what the target held when `writeFile` was called, and the messages on
their way. -/
structure Joint where
  host : Host
  device : State
  before : Option Node
  requests : List (ℕ × Request) := []
  responses : List (ℕ × Response) := []

def Joint.send (s : Joint) (phase : HostPhase) (r : Request) : Joint :=
  { s with
    host := { s.host with phase := phase, next := s.host.next + 1 }
    requests := s.requests ++ [(s.host.next, r)] }

/-- The host fails: the abort is sent, and nothing waits for its outcome. -/
def Joint.fail (s : Joint) : Joint := s.send .cleaning .abort

def Joint.follow (s : Joint) : Verdict → Joint
  | .send rpc r => s.send (.waiting rpc s.host.next) r
  | .done => { s with host := { s.host with phase := .committed } }
  | .failure => s.fail

/-- A message is taken off the link. -/
def without {α : Type*} (q : ℕ) (ms : List (ℕ × α)) : List (ℕ × α) := ms.filter (·.1 ≠ q)

/-- A call that is not of this upload: it uses another id and stages elsewhere. -/
def Job.Foreign (job : Job) (c : Call) : Prop :=
  ∀ r a, c = .begin r a → unhex (some r.uploadId) 16 ≠ some job.id ∧
    ∀ path, r.path = some path → temporaryOf (targetOf path) r.uploadId ≠ job.target

/-- What can happen. -/
inductive Label
  /-- A call of the device before `writeFile`. -/
  | other (e : Event)
  | mutate (content : List UInt8)
  | digest
  /-- `writeFile` rejects before it has sent anything. -/
  | giveUp
  | start
  | receive (m : ℕ × Response)
  /-- The request that the loop waits for fails (time-out, abort or write error), or what follows
  the commit does. -/
  | fail
  | resolve
  /-- The clean-up is over. -/
  | cleaned
  | deliver (m : ℕ × Request) (e : Event)
  /-- The device answers without a call. -/
  | refuse (m : ℕ × Request)
  | poll (e : Event)
  | loseRequest (m : ℕ × Request)
  | loseResponse (m : ℕ × Response)

/-- The device's part of a label. -/
def Label.event : Label → Option Event
  | .other e => some e
  | .deliver _ e => some e
  | .poll e => some e
  | _ => none

section Step

variable (sha256 : List UInt8 → List UInt8) (job : Job)

/-- One step of the host, the link or the device. -/
inductive Step (s : Joint) : Label → Joint → Prop
  | other (e : Event) (d : State) : s.host.phase = .called → job.Foreign e.call →
      (transfers sha256).step s.device e d →
      Step s (.other e) { s with device := d, before := d.fs job.target }
  | mutate (content : List UInt8) : content.length = s.host.content.length →
      Step s (.mutate content) { s with host := { s.host with content := content } }
  | digest : s.host.phase = .called → 4096 ≤ job.limit → job.limit ≤ 16384 →
      job.limit % 4096 = 0 → s.host.content.length ≤ 0xffffffff →
      Step s .digest { s with
        host := { s.host with phase := .hashed, hashed := s.host.content } }
  | giveUp : s.host.phase = .called ∨ s.host.phase = .hashed →
      Step s .giveUp { s with host := { s.host with phase := .rejected } }
  | start : s.host.phase = .hashed →
      Step s .start (s.send (.waiting .begin s.host.next)
        (.begin s.host.content.length (sha256 s.host.hashed)))
  | receive (q : ℕ) (rpc : Rpc) (r : Response) : s.host.phase = .waiting rpc q →
      (q, r) ∈ s.responses →
      Step s (.receive (q, r))
        ({ s with responses := without q s.responses }.follow (s.host.judge job rpc r))
  | fail (rpc : Rpc) (q : ℕ) : s.host.phase = .waiting rpc q → Step s .fail s.fail
  | failLate : s.host.phase = .committed →
      Step s .fail { s with host := { s.host with phase := .rejected } }
  | resolve : s.host.phase = .committed →
      Step s .resolve { s with host := { s.host with phase := .resolved } }
  | cleaned : s.host.phase = .cleaning →
      Step s .cleaned { s with host := { s.host with phase := .rejected } }
  | deliver (m : ℕ × Request) (e : Event) (owner : Snapshot) (a : Answers) (d : State) :
      m ∈ s.requests → route owner a (m.2.body job) = some e.call →
      (transfers sha256).step s.device e d →
      Step s (.deliver m e) { s with
        device := d
        requests := without m.1 s.requests
        responses := s.responses ++ [(m.1, respond sha256 s.device e.call)] }
  | refuse (m : ℕ × Request) : m ∈ s.requests →
      Step s (.refuse m) { s with
        requests := without m.1 s.requests
        responses := s.responses ++ [(m.1, .error)] }
  | poll (e : Event) (a : PollAnswers) (d : State) : e.call = .poll a →
      (transfers sha256).step s.device e d → Step s (.poll e) { s with device := d }
  | loseRequest (m : ℕ × Request) : m ∈ s.requests →
      Step s (.loseRequest m) { s with requests := without m.1 s.requests }
  | loseResponse (m : ℕ × Response) : m ∈ s.responses →
      Step s (.loseResponse m) { s with responses := without m.1 s.responses }

/-- One `writeFile` on a device that has run before. -/
def uploads : System Joint Label where
  init s := (transfers sha256).init s.device ∧ s.before = s.device.fs job.target ∧
    s.host = { content := s.host.content } ∧ s.requests = [] ∧ s.responses = []
  step := Step sha256 job

end Step

end EspVision.Upload
