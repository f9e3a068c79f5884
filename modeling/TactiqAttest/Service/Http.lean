import TactiqAttest.Bytes.Text
import TactiqAttest.Programs.Results
import TactiqAttest.Stop.Record

/-!
# Requests

The HTTP parser of the stop service, and what its requests hash to.

A refusal names its call by a digest of method, path and body, joined by zero bytes.  Joining is
only injective if the parts cannot contain the joint, and the parser is what decides which bytes a
method and a path may contain: a method is capital letters, but a path is anything between two
spaces of the request line, zero bytes included.

* `Request.preimage_eq_iff`: two requests have the same preimage exactly when they are the same, or
  one continues the path of the other past a zero byte (`Continues`).
* `preimage_determines_request_iff`: so the preimage determines the request exactly for pairs where
  neither continues the other in that way; in particular for all paths without zero bytes.
-/

namespace TactiqAttest.Service

open Stop

/-! ## The parser -/

abbrev headMax : ℕ := 16384
abbrev bodyMax : ℕ := 1048576

/-- A parsed request. -/
structure Request where
  method : Bytes
  path : Bytes
  body : Bytes
  deriving DecidableEq

/-- The errors of the parser, each with what its text quotes. -/
inductive HttpError where
  /-- `request head over 16384 bytes` -/
  | headOver
  /-- `request head is not UTF-8` -/
  | notUtf8
  /-- `bad request line` -/
  | requestLine (line : Bytes)
  /-- `unsupported version` -/
  | version (version : Bytes)
  /-- `bad method` -/
  | method (method : Bytes)
  /-- `bad header line` -/
  | headerLine (line : Bytes)
  /-- `bad header name` -/
  | headerName (name : Bytes)
  /-- `chunked or other transfer encodings are not accepted` -/
  | transferEncoding
  /-- `bad content-length` -/
  | contentLength (value : Bytes)
  /-- `conflicting content-length headers` -/
  | conflictingLengths
  /-- `body of {n} bytes over 1048576` -/
  | bodyOver (n : ℕ)
  deriving DecidableEq

/-- The three words of a request line. -/
def requestLine (line : Bytes) : Except HttpError (Bytes × Bytes × Bytes) :=
  match Text.split 0x20 line with
  | [method, path, version] => .ok (method, path, version)
  | _ => .error (.requestLine line)

/-- One header line: the body length known so far, and the one known after it. -/
def header (length : Option ℕ) (line : Bytes) : Except HttpError (Option ℕ) := do
  let (name, value) ← Except.ofOption (.headerLine line) (Text.splitOnce 0x3A line)
  Except.ensure (name ≠ [] ∧ name.all Text.isGraphic) (.headerName name)
  let value := Text.trim (fun c => c == 0x20 || c == 0x09) value
  Except.ensure (¬ Text.eqIgnoreCase name (Text.ascii "transfer-encoding")) .transferEncoding
  if Text.eqIgnoreCase name (Text.ascii "content-length") then do
    Except.ensure (value ≠ [] ∧ value.length ≤ 8 ∧ value.all Text.isDigit) (.contentLength value)
    let n := Text.digitsValue value
    Except.ensure (length.all (· == n)) .conflictingLengths
    return some n
  else return length

/-- The header loop. -/
def headers (length : Option ℕ) : List Bytes → Except HttpError (Option ℕ)
  | [] => .ok length
  | line :: lines => do
    let length ← header length line
    headers length lines

/-- `http::parse`: the request and the number of bytes it took, or nothing while bytes are
missing. -/
def parse (buf : Bytes) : Except HttpError (Option (Request × ℕ)) :=
  match Text.find [0x0D, 0x0A, 0x0D, 0x0A] buf with
  | none => if buf.length > headMax then .error .headOver else .ok none
  | some headEnd => do
    Except.ensure (headEnd ≤ headMax) .headOver
    let head := buf.take headEnd
    Except.ensure (Text.utf8Valid head) .notUtf8
    -- splitting yields at least one piece, so there always is a first line
    let lines := Text.splitCrlf head
    let (method, path, version) ← requestLine (lines.headD [])
    Except.ensure (version = Text.ascii "HTTP/1.1" ∨ version = Text.ascii "HTTP/1.0")
      (.version version)
    Except.ensure (method ≠ [] ∧ method.all Text.isUpper) (.method method)
    let length ← headers none lines.tail
    let n := length.getD 0
    Except.ensure (n ≤ bodyMax) (.bodyOver n)
    let start := headEnd + 4
    if buf.length < start + n then return none
    else return some (⟨method, path, (buf.drop start).take n⟩, start + n)

/-- A parsed method is capital letters. -/
theorem method_of_parse {buf : Bytes} {r : Request} {used : ℕ}
    (h : parse buf = .ok (some (r, used))) : r.method.all Text.isUpper = true := by
  unfold parse at h
  split at h
  case h_1 => split_ifs at h; cases h
  case h_2 headEnd _ =>
    simp only [Except.bind_eq_ok, Except.ensure_eq_ok] at h
    obtain ⟨-, -, -, -, ⟨method, path, version⟩, -, -, -, -, ⟨-, hupper⟩, length, -, -, -, hret⟩ :=
      h
    split_ifs at hret
    · cases Except.pure_eq_ok.mp hret
    · cases Except.pure_eq_ok.mp hret
      exact hupper

theorem zero_notMem_of_all_isUpper {bs : Bytes} (h : bs.all Text.isUpper = true) :
    (0 : UInt8) ∉ bs := fun hmem => by
  have hzero := List.all_eq_true.mp h 0 hmem
  exact absurd hzero (by decide)

/-! ## What a request hashes to -/

/-- The preimage of a request's digest. -/
def Request.preimage (r : Request) : Bytes := requestPreimage r.method r.path r.body

/-- Strings joined by a byte that the first of them does not contain come apart there. -/
theorem append_cons_inj {c : UInt8} {a a' b b' : Bytes} (ha : c ∉ a) (ha' : c ∉ a') :
    a ++ c :: b = a' ++ c :: b' ↔ a = a' ∧ b = b' := by
  induction a generalizing a' with
  | nil =>
    cases a' with
    | nil => simp
    | cons x tl =>
      have hx : c ≠ x := fun h => ha' (h ▸ List.mem_cons_self)
      simp [hx]
  | cons x tl ih =>
    have hx : c ≠ x := fun h => ha (h ▸ List.mem_cons_self)
    have htl : c ∉ tl := fun h => ha (List.mem_cons_of_mem _ h)
    cases a' with
    | nil => simp [Ne.symm hx]
    | cons y tl' =>
      have htl' : c ∉ tl' := fun h => ha' (List.mem_cons_of_mem _ h)
      simp only [List.cons_append, List.cons.injEq, ih htl htl', and_assoc]

/-- Two strings joined by a byte, in two ways: the same way, or the joint of one lies inside the
first part of the other. -/
theorem append_cons_eq_iff {c : UInt8} {a a' b b' : Bytes} :
    a ++ c :: b = a' ++ c :: b' ↔
      (a = a' ∧ b = b') ∨ (∃ x, a' = a ++ c :: x ∧ b = x ++ c :: b') ∨
        ∃ x, a = a' ++ c :: x ∧ b' = x ++ c :: b := by
  rw [List.append_eq_append_iff]
  constructor
  · rintro (⟨l, rfl, h⟩ | ⟨l, rfl, h⟩)
    · rcases l with _ | ⟨y, l⟩
      · cases h
        exact .inl ⟨(List.append_nil _).symm, rfl⟩
      · cases h
        exact .inr (.inl ⟨l, rfl, rfl⟩)
    · rcases l with _ | ⟨y, l⟩
      · cases h
        exact .inl ⟨List.append_nil _, rfl⟩
      · cases h
        exact .inr (.inr ⟨l, rfl, rfl⟩)
  · rintro (⟨rfl, rfl⟩ | ⟨x, rfl, rfl⟩ | ⟨x, rfl, rfl⟩)
    · exact .inl ⟨[], by simp, rfl⟩
    · exact .inl ⟨c :: x, rfl, rfl⟩
    · exact .inr ⟨c :: x, rfl, rfl⟩

namespace Request

/-- `r'` continues the path of `r` past a zero byte, with what `r` has there at the start of its
body. -/
def Continues (r r' : Request) : Prop :=
  r.method = r'.method ∧ ∃ x, r'.path = r.path ++ 0 :: x ∧ r.body = x ++ 0 :: r'.body

theorem Continues.ne {r r' : Request} (h : r.Continues r') : r ≠ r' := by
  rintro rfl
  obtain ⟨-, x, hpath, -⟩ := h
  have hlen := congrArg List.length hpath
  rw [List.length_append, List.length_cons] at hlen
  omega

/-- A continued path has a zero byte in it. -/
theorem Continues.zero_mem {r r' : Request} (h : r.Continues r') : 0 ∈ r'.path := by
  obtain ⟨-, x, hpath, -⟩ := h
  rw [hpath]
  simp

/-- When two requests have the same preimage. -/
theorem preimage_eq_iff {r r' : Request} (h : (0 : UInt8) ∉ r.method)
    (h' : (0 : UInt8) ∉ r'.method) :
    r.preimage = r'.preimage ↔ r = r' ∨ r.Continues r' ∨ r'.Continues r := by
  obtain ⟨method, path, body⟩ := r
  obtain ⟨method', path', body'⟩ := r'
  simp only at h h'
  simp only [preimage, requestPreimage, List.append_cancel_left_eq, List.cons.injEq, true_and,
    append_cons_inj h h', append_cons_eq_iff, Continues, mk.injEq]
  constructor
  · rintro ⟨rfl, ⟨rfl, rfl⟩ | hx | hx⟩
    · exact .inl ⟨rfl, rfl, rfl⟩
    · exact .inr (.inl ⟨rfl, hx⟩)
    · exact .inr (.inr ⟨rfl, hx⟩)
  · rintro (⟨rfl, rfl, rfl⟩ | ⟨rfl, hx⟩ | ⟨rfl, hx⟩)
    · exact ⟨rfl, .inl ⟨rfl, rfl⟩⟩
    · exact ⟨rfl, .inr (.inl hx)⟩
    · exact ⟨rfl, .inr (.inr hx)⟩

end Request

/-- **The preimage of two parsed requests determines the request exactly when neither continues the
path of the other past a zero byte.**  In particular it does when the paths have no zero bytes. -/
theorem preimage_determines_request_iff {buf buf' : Bytes} {r r' : Request} {used used' : ℕ}
    (h : parse buf = .ok (some (r, used))) (h' : parse buf' = .ok (some (r', used'))) :
    ((r.preimage = r'.preimage → r = r') ↔ ¬ r.Continues r' ∧ ¬ r'.Continues r) ∧
      (0 ∉ r.path → 0 ∉ r'.path → r.preimage = r'.preimage → r = r') := by
  have heq := Request.preimage_eq_iff (zero_notMem_of_all_isUpper (method_of_parse h))
    (zero_notMem_of_all_isUpper (method_of_parse h'))
  refine ⟨⟨fun hinj => ?_, fun hno hpre => ?_⟩, fun hpath hpath' hpre => ?_⟩
  · exact ⟨fun hc => hc.ne (hinj (heq.mpr (.inr (.inl hc)))),
      fun hc => hc.ne (hinj (heq.mpr (.inr (.inr hc)))).symm⟩
  · rcases heq.mp hpre with hsame | hc | hc
    · exact hsame
    · exact absurd hc hno.1
    · exact absurd hc hno.2
  · rcases heq.mp hpre with hsame | hc | hc
    · exact hsame
    · exact absurd hc.zero_mem hpath'
    · exact absurd hc.zero_mem hpath

/-! Two requests a client can send, one of them with a zero byte in its path. -/

namespace ZeroByteSample

/-- `POST /a` with the body `b`, a zero byte, `c`. -/
def shortPath : Bytes :=
  Text.ascii "POST /a HTTP/1.1\r\nContent-Length: 3\r\n\r\nb" ++ [0] ++ Text.ascii "c"

/-- `POST /a`, a zero byte, `b`, with the body `c`. -/
def longPath : Bytes :=
  Text.ascii "POST /a" ++ [0] ++ Text.ascii "b HTTP/1.1\r\nContent-Length: 1\r\n\r\nc"

def shortRequest : Request :=
  ⟨Text.ascii "POST", Text.ascii "/a", Text.ascii "b" ++ [0] ++ Text.ascii "c"⟩

def longRequest : Request :=
  ⟨Text.ascii "POST", Text.ascii "/a" ++ [0] ++ Text.ascii "b", Text.ascii "c"⟩

theorem parse_shortPath : parse shortPath = .ok (some (shortRequest, 42)) := by decide +kernel

theorem parse_longPath : parse longPath = .ok (some (longRequest, 42)) := by decide +kernel

end ZeroByteSample

/-- The two parse, are different requests, and have the same preimage, so the same digest. -/
theorem zeroByte_preimage_collides :
    parse ZeroByteSample.shortPath = .ok (some (ZeroByteSample.shortRequest, 42)) ∧
      parse ZeroByteSample.longPath = .ok (some (ZeroByteSample.longRequest, 42)) ∧
      ZeroByteSample.shortRequest ≠ ZeroByteSample.longRequest ∧
      ZeroByteSample.shortRequest.preimage = ZeroByteSample.longRequest.preimage := by
  exact ⟨ZeroByteSample.parse_shortPath, ZeroByteSample.parse_longPath, by decide, by decide⟩

/-- The criterion on these two. -/
theorem zeroByte_preimage_iff :
    ((ZeroByteSample.shortRequest.preimage = ZeroByteSample.longRequest.preimage →
        ZeroByteSample.shortRequest = ZeroByteSample.longRequest) ↔
      ¬ ZeroByteSample.shortRequest.Continues ZeroByteSample.longRequest ∧
        ¬ ZeroByteSample.longRequest.Continues ZeroByteSample.shortRequest) ∧
      (0 ∉ ZeroByteSample.shortRequest.path → 0 ∉ ZeroByteSample.longRequest.path →
        ZeroByteSample.shortRequest.preimage = ZeroByteSample.longRequest.preimage →
        ZeroByteSample.shortRequest = ZeroByteSample.longRequest) :=
  preimage_determines_request_iff ZeroByteSample.parse_shortPath ZeroByteSample.parse_longPath

end TactiqAttest.Service
