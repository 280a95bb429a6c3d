import ShardedCache.Proofs.Engine.Sound
import ShardedCache.Proofs.Wire.FrameStream

/-!
# Servers

A server that keeps to the protocol answers requests in order. What it says to a request depends on
the requests before it, not on tags or on whether a request is quiet: a quiet get is left
unanswered exactly if the key is missing, a quiet store exactly if it succeeded. `Server.conclusion`
is what an operation comes to whose request is answered, loud or quiet.
-/

namespace ShardedCache

open Wire (Frame Opcode Status StatusCode)

/-! ## Requests as a server sees them -/

namespace Wire

/-- The form of a command that is always answered. -/
def Opcode.loud : Opcode → Opcode
  | getQ => get
  | getKQ => getK
  | setQ => set
  | addQ => add
  | replaceQ => replace
  | o => o

namespace Frame

def isNoOp (f : Frame) : Bool := f.header.opcode == Opcode.noOp.toByte

/-- What a request asks for, whatever its tag and whether it is quiet or not. -/
def loud (f : Frame) : Frame :=
  let opcode := match Opcode.ofByte? f.header.opcode with
    | some o => o.loud.toByte
    | none => f.header.opcode
  { f with header := { f.header with opcode, tag := 0 } }

/-- Whether the request is left unanswered when this is its status. -/
def isSilent (f : Frame) (status : UInt16) : Bool :=
  match Opcode.ofByte? f.header.opcode with
  | some .getQ | some .getKQ => status == keyNotFound
  | some .setQ | some .addQ | some .replaceQ => status == noError
  | _ => false

end Frame

end Wire

/-! ## Servers and their answers -/

/-- What a server says to a request. -/
structure Server.Answer where
  status : UInt16
  extras : Bytes := []
  key : Bytes := []
  value : Bytes := []
  cas : UInt64 := 0

namespace Server.Answer

def Fits (a : Answer) : Prop := Frame.Fits a.extras a.key a.value

instance (a : Answer) : Decidable a.Fits := inferInstanceAs (Decidable (Frame.Fits _ _ _))

/-- The response that says so. -/
def frame (a : Answer) (opcode : UInt8) (tag : UInt32) : Frame :=
  .response opcode a.status a.extras a.key a.value tag a.cas

@[simp] theorem tag_frame (a : Answer) (opcode : UInt8) (tag : UInt32) :
    (a.frame opcode tag).tag = tag := by
  cases a
  rfl

theorem Fits.readable {a : Answer} (h : a.Fits) (opcode : UInt8) (tag : UInt32) :
    (a.frame opcode tag).Readable Wire.responseMagic := ⟨Frame.sized_build h _ _ _ _ _, rfl⟩

end Server.Answer

/-- A server, by what it says to a request that follows given ones. -/
structure Server where
  answer : List Frame → Frame → Server.Answer
  noOp : ∀ past f, f.isNoOp → (answer past f).status = Wire.noError
  valid : ∀ past f, (answer past f).status ≠ Wire.invalidArguments
  fits : ∀ past f, (answer past f).Fits

namespace Server

/-- The response to a request, unless it is left unanswered. -/
def reply? (s : Server) (past : List Frame) (f : Frame) : Option Frame :=
  let a := s.answer past f.loud
  if f.isSilent a.status then none else some (a.frame f.header.opcode f.tag)

/-- The requests that later answers may depend on, after one more. -/
def record (past : List Frame) (f : Frame) : List Frame :=
  if f.isNoOp then past else past ++ [f.loud]

/-- Answers requests in order. -/
def serve (s : Server) : List Frame → List Frame → List Frame × List (Option Frame)
  | past, [] => (past, [])
  | past, f :: rest =>
    let (final, replies) := s.serve (record past f) rest
    (final, s.reply? past f :: replies)

theorem readable_of_reply? {s : Server} {past : List Frame} {f reply : Frame}
    (h : s.reply? past f = some reply) : reply.Readable Wire.responseMagic := by
  simp only [reply?] at h
  split at h <;> cases h
  exact (s.fits past f.loud).readable _ _

end Server

/-! ## Commands and answers -/

/-- How an operation ends, but for the message. -/
structure Conclusion where
  code : StatusCode
  payload : Option Payload
  deriving DecidableEq, Repr

namespace Conclusion

def ofReply : Except ProtocolError Reply → Conclusion
  | .error error => ⟨(Engine.failureStatus error).code, none⟩
  | .ok reply => ⟨reply.status.code, reply.payload⟩

/-- A callback has heard of this end. -/
def HeardIn (c : Conclusion) (heard : List Event) : Prop :=
  ∃ message, heard = c.payload.toList.map .payload ++ [.status ⟨c.code, message⟩, .finished]

end Conclusion

namespace Command

/-- The request can be framed. -/
def Fits (c : Command) : Prop :=
  Frame.Fits (c.request 0).extras (c.request 0).key (c.request 0).value

instance (c : Command) : Decidable c.Fits := inferInstanceAs (Decidable (Frame.Fits _ _ _))

/-- A request is a frame with an opcode that is always answered; of its parts only the tag does not
come from the command. -/
theorem request_eq (c : Command) : ∃ o : Opcode, o.isQuiet = false ∧ ∀ tag,
    c.request tag = .request o (c.request 0).extras (c.request 0).key (c.request 0).value tag
      (c.request 0).header.cas := by
  cases c with
  | get key withCas => exact ⟨.getK, rfl, fun _ => rfl⟩
  | store r => exact ⟨r.opcode, by cases h : r.kind <;> simp [StoreRequest.opcode, h, Opcode.isQuiet],
      fun _ => rfl⟩
  | delete key => exact ⟨.delete, rfl, fun _ => rfl⟩
  | counter r => exact ⟨r.opcode,
      by cases h : r.direction <;> simp [CounterRequest.opcode, h, Opcode.isQuiet], fun _ => rfl⟩
  | flush delay => exact ⟨.flush, rfl, fun _ => rfl⟩
  | noop => exact ⟨.noOp, rfl, fun _ => rfl⟩
  | version => exact ⟨.version, rfl, fun _ => rfl⟩
  | sasl mechanism payload => exact ⟨.saslAuth, rfl, fun _ => rfl⟩
  | sortRange q => exact ⟨.sortRange, rfl, fun _ => rfl⟩

end Command

namespace Wire.Frame

variable (o : Opcode) (extras key value : Bytes) (tag : UInt32) (cas : UInt64)

theorem loud_request :
    (request o extras key value tag cas).loud = request o.loud extras key value 0 cas := by
  simp [loud, request, build, Opcode.ofByte?_toByte]

theorem isSilent_request {o : Opcode} (ho : o.isQuiet = false) (status : UInt16) :
    (request o extras key value tag cas).isSilent status = false := by
  have hbyte : (request o extras key value tag cas).header.opcode = o.toByte := rfl
  rw [isSilent, hbyte, Opcode.ofByte?_toByte]
  cases o <;> first | rfl | cases ho

end Wire.Frame

@[simp] theorem Wire.Frame.isNoOp_loud (f : Frame) : f.loud.isNoOp = f.isNoOp := by
  unfold Frame.loud
  dsimp only
  split
  · next o ho =>
    have hfound := List.find?_some ho
    have hbyte : o.toByte = f.header.opcode := beq_iff_eq.1 hfound
    simp only [Frame.isNoOp, ← hbyte]
    cases o <;> rfl
  · rfl

theorem Wire.Opcode.loud_of_not_isQuiet {o : Opcode} (ho : o.isQuiet = false) : o.loud = o := by
  cases o <;> first | rfl | cases ho

namespace Command

/-- What the command asks for. -/
@[simp] theorem loud_request (c : Command) (tag : UInt32) : (c.request tag).loud = c.request 0 := by
  obtain ⟨o, ho, heq⟩ := c.request_eq
  rw [heq tag, Frame.loud_request, Opcode.loud_of_not_isQuiet ho, ← heq 0]

theorem isSilent_request (c : Command) (tag : UInt32) (status : UInt16) :
    (c.request tag).isSilent status = false := by
  obtain ⟨o, ho, heq⟩ := c.request_eq
  rw [heq tag, Frame.isSilent_request _ _ _ _ _ ho]

@[simp] theorem tag_request (c : Command) (tag : UInt32) : (c.request tag).tag = tag := by
  obtain ⟨o, -, heq⟩ := c.request_eq
  rw [heq tag]
  rfl

theorem Fits.readable {c : Command} (h : c.Fits) (tag : UInt32) :
    (c.request tag).Readable Wire.requestMagic := by
  obtain ⟨o, -, heq⟩ := c.request_eq
  rw [heq tag]
  exact ⟨Frame.sized_build h _ _ _ _ _, rfl⟩

/-- The request that stands for the command in a batch; the ordinary one, if there is no other. -/
def quiet (c : Command) (tag : UInt32) : Frame := (c.quietRequest? tag).getD (c.request tag)

theorem quiet_eq (c : Command) : ∃ o : Opcode,
    .request o.loud (c.request 0).extras (c.request 0).key (c.request 0).value 0
      (c.request 0).header.cas = c.request 0 ∧ ∀ tag,
    c.quiet tag = .request o (c.request 0).extras (c.request 0).key (c.request 0).value tag
      (c.request 0).header.cas := by
  cases c with
  | get key withCas => exact ⟨.getKQ, rfl, fun _ => rfl⟩
  | store r =>
    obtain ⟨kind, key, flags, exptime, data, cas⟩ := r
    cases kind with
    | set => exact ⟨.setQ, rfl, fun _ => rfl⟩
    | add => exact ⟨.addQ, rfl, fun _ => rfl⟩
    | replace => exact ⟨.replaceQ, rfl, fun _ => rfl⟩
    | append => exact ⟨.append, rfl, fun _ => rfl⟩
    | prepend => exact ⟨.prepend, rfl, fun _ => rfl⟩
  | delete key => exact ⟨.delete, rfl, fun _ => rfl⟩
  | counter r =>
    obtain ⟨direction, key, amount, initial, exptime⟩ := r
    cases direction with
    | up => exact ⟨.increment, rfl, fun _ => rfl⟩
    | down => exact ⟨.decrement, rfl, fun _ => rfl⟩
  | flush delay => exact ⟨.flush, rfl, fun _ => rfl⟩
  | noop => exact ⟨.noOp, rfl, fun _ => rfl⟩
  | version => exact ⟨.version, rfl, fun _ => rfl⟩
  | sasl mechanism payload => exact ⟨.saslAuth, rfl, fun _ => rfl⟩
  | sortRange q => exact ⟨.sortRange, rfl, fun _ => rfl⟩

@[simp] theorem loud_quiet (c : Command) (tag : UInt32) : (c.quiet tag).loud = c.request 0 := by
  obtain ⟨o, hloud, heq⟩ := c.quiet_eq
  rw [heq tag, Frame.loud_request, hloud]

@[simp] theorem tag_quiet (c : Command) (tag : UInt32) : (c.quiet tag).tag = tag := by
  obtain ⟨o, -, heq⟩ := c.quiet_eq
  rw [heq tag]
  rfl

theorem Fits.readable_quiet {c : Command} (h : c.Fits) (tag : UInt32) :
    (c.quiet tag).Readable Wire.requestMagic := by
  obtain ⟨o, -, heq⟩ := c.quiet_eq
  rw [heq tag]
  exact ⟨Frame.sized_build h _ _ _ _ _, rfl⟩

end Command

/-- The status that quiet requests of a family are not answered with. -/
def BatchFamily.silence : BatchFamily → UInt16
  | get => Wire.keyNotFound
  | store => Wire.noError

namespace Command

/-- A command that may join a batch has a request of its own for that. -/
theorem quiet_of_family {c : Command} {family : BatchFamily} (h : c.family? = some family)
    (tag : UInt32) : c.quietRequest? tag = some (c.quiet tag) ∧
      ∀ status, (c.quiet tag).isSilent status = (status == family.silence) := by
  cases c with
  | get key withCas =>
    cases withCas <;> cases h
    exact ⟨rfl, fun _ => rfl⟩
  | store r =>
    obtain ⟨kind, key, flags, exptime, data, cas⟩ := r
    cases kind <;> cases h <;> exact ⟨rfl, fun _ => rfl⟩
  | _ => cases h

/-! ## What an answer comes to -/

/-- How the command takes an answer. -/
def outcome (c : Command) (a : Server.Answer) : Except ProtocolError Reply :=
  c.interpret 0 (a.frame 0 0)

theorem interpret_frame (c : Command) (a : Server.Answer) (opcode : UInt8) (tag : UInt32) :
    c.interpret tag (a.frame opcode tag) = c.outcome a := by
  have hpayload : c.payload (a.frame opcode tag) = c.payload (a.frame 0 0) := by cases c <;> rfl
  simp only [outcome, interpret, Server.Answer.tag_frame, ne_eq, not_true_eq_false, ↓reduceIte, hpayload]
  rfl

/-- A key that is missing is an ordinary outcome. -/
theorem outcome_of_missing (c : Command) {a : Server.Answer} (h : a.status = Wire.keyNotFound) :
    Conclusion.ofReply (c.outcome a) = ⟨.notFound, none⟩ := by
  have hstatus : (a.frame 0 0).status = Wire.keyNotFound := h
  have hcode : (Status.ofWire Wire.keyNotFound (a.frame 0 0).value).code = .notFound := by
    unfold Status.ofWire
    dsimp only
    split <;> rfl
  have hrefused : Wire.keyNotFound ≠ Wire.noError := by decide
  simp [outcome, interpret, hstatus, hrefused, hcode, Conclusion.ofReply]

theorem outcome_of_stored (r : StoreRequest) {a : Server.Answer} (h : a.status = Wire.noError) :
    Conclusion.ofReply ((Command.store r).outcome a) = ⟨.success, none⟩ := by
  have hstatus : (a.frame 0 0).status = Wire.noError := h
  simp [outcome, interpret, hstatus, payload, Conclusion.ofReply, Status.success]

end Command

namespace Server

/-- What an operation comes to whose request is answered. -/
def conclusion (s : Server) (past : List Frame) (c : Command) : Conclusion :=
  .ofReply (c.outcome (s.answer past (c.request 0)))

section Reply

variable {s : Server} {past : List Frame} {f reply : Frame}

theorem tag_of_reply? (h : s.reply? past f = some reply) : reply.tag = f.tag := by
  simp only [reply?] at h
  split at h <;> cases h
  rfl

/-- No response asks for the connection to be dropped. -/
theorem not_fatal_of_reply? (h : s.reply? past f = some reply) (c : Command) (tag : UInt32) :
    Engine.frameOutcome c tag reply ≠ .fatal := by
  intro hfatal
  have hstatus := Engine.isConnectionFatal_of_frameOutcome hfatal
  simp only [reply?] at h
  split at h <;> cases h
  exact s.valid past f.loud (beq_iff_eq.1 hstatus)

/-- A response says what the conclusion is, be the request quiet or not. -/
theorem conclusion_of_reply? (h : s.reply? past f = some reply) {c : Command}
    (hloud : f.loud = c.request 0) :
    .ofReply (c.interpret f.tag reply) = s.conclusion past c := by
  simp only [reply?] at h
  split at h <;> cases h
  rw [Command.interpret_frame, conclusion, hloud]

/-- And so does silence. -/
theorem conclusion_of_silence {c : Command} {b : Batch} (hfamily : c.family? = some b.family)
    {tag : UInt32} (h : s.reply? past (c.quiet tag) = none) :
    s.conclusion past c = ⟨b.silentStatus.code, none⟩ := by
  simp only [reply?, Command.loud_quiet] at h
  split at h
  · next hsilent =>
    rw [(Command.quiet_of_family hfamily tag).2, beq_iff_eq] at hsilent
    rw [conclusion, Batch.silentStatus]
    cases hb : b.family with
    | get =>
      rw [hb] at hsilent
      exact Command.outcome_of_missing c hsilent
    | store =>
      rw [hb] at hfamily hsilent
      obtain ⟨r, rfl⟩ : ∃ r, c = .store r := by
        cases c with
        | store r => exact ⟨r, rfl⟩
        | get key withCas => cases withCas <;> cases hfamily
        | _ => cases hfamily
      exact Command.outcome_of_stored r hsilent
  · cases h

/-- Only quiet requests are left unanswered. -/
theorem reply?_request (s : Server) (past : List Frame) (c : Command) (tag : UInt32) :
    s.reply? past (c.request tag) ≠ none := by
  simp [reply?, Command.isSilent_request]

end Reply

end Server

/-! ## What a callback hears of it -/

/-- All that a callback hears of what a response comes to. -/
def Event.ofReply : Except ProtocolError Reply → List Event
  | .error error => [.status (Engine.failureStatus error), .finished]
  | .ok reply => reply.payload.toList.map .payload ++ [.status reply.status, .finished]

theorem Conclusion.heardIn_ofReply (reply : Except ProtocolError Reply) :
    (ofReply reply).HeardIn (Event.ofReply reply) := by
  cases reply with
  | error error => exact ⟨(Engine.failureStatus error).message, rfl⟩
  | ok reply => exact ⟨reply.status.message, rfl⟩

namespace Life

variable {l : Life} (hl : l.Sound) (hopen : l.isTerminal = false)

include hl hopen

theorem heard_complete (status : Status) : (l.complete status).heard = [.status status, .finished] := by
  have hnone := hl.status_eq_none hopen
  simp [complete, hopen, report, mapOperation, hnone, hl.heard_eq_nil hopen]

theorem heard_fail (error : ProtocolError) : (l.fail error).heard = Event.ofReply (.error error) := by
  have hmark := (hl.mapOperation (f := ({ · with error := some error })) rfl rfl rfl rfl
    fun _ => ⟨rfl, rfl⟩).1
  exact heard_complete hmark hopen _

theorem heard_answer (c : Command) (f : Frame) :
    (l.answer c f).heard = Event.ofReply (c.interpret l.operation.tag f) := by
  unfold answer
  cases hreply : c.interpret l.operation.tag f with
  | error error => exact heard_fail hl hopen error
  | ok reply =>
    dsimp only [Event.ofReply]
    cases hpayload : reply.payload with
    | none => exact heard_complete hl hopen reply.status
    | some payload =>
      have hnone := hl.status_eq_none hopen
      simp [hand, complete, isTerminal, report, mapOperation, hnone, hl.heard_eq_nil hopen,
        show l.operation.isTerminal = false from hopen]

end Life

end ShardedCache
