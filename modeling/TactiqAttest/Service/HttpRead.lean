import TactiqAttest.Service.Handle
import TactiqAttest.Service.HttpFraming

/-!
# Requests that arrive in pieces

`readRequest` parses what has arrived after every read, so a request that comes in pieces is parsed
on every one of its beginnings.  The answer on those should be "not yet", and it is, except for one
thing: while the empty line is missing, more than `headMax` bytes are too many, and the first three
bytes of the empty line are counted with the head.

* `parse_beginning`: what the parser says of a beginning of a request.
* `readRequest_delivered`: what the loop returns, for every delivery of a request.
* `any_delivery_iff`: it is the request whatever the pieces are exactly if the head is at least
  three bytes shorter than the longest head that is accepted.
-/

namespace TactiqAttest.Service

open Text (crlf)

/-! ## Beginnings -/

/-- The length of the head: what is before the empty line. -/
def headLength (buf : Bytes) : ℕ := (Text.find headEnd buf).getD 0

/-- More than the bound on a head has arrived, and the empty line has not. -/
def Overlong (headLen n : ℕ) : Prop := headMax < n ∧ n < headLen + 4

variable {debug : Bytes → String} {p x S : Bytes} {r : Request} {used : ℕ} {chunks : List Bytes}

/-- **The parser asks for more of a beginning**, unless that is overlong. -/
theorem parse_beginning (h : parse S = .ok (some (r, used))) (hS : p ++ x = S)
    (hshort : p.length < used) :
    (Overlong (headLength S) p.length → parse p = .error .headOver) ∧
      (¬ Overlong (headLength S) p.length → parse p = .ok none) := by
  subst hS
  obtain ⟨i, hfind, hmax, hhead, rfl, -, -⟩ := parse_eq_some.mp h
  have hlen : headLength (p ++ x) = i := by rw [headLength, hfind, Option.getD_some]
  rw [hlen, Overlong]
  by_cases hin : i + 4 ≤ p.length
  · -- the head is there, and some of the body is not
    have hparse := parse_of_find (Text.find_of_append hfind hin)
    rw [List.take_append_of_le_length (by omega)] at hhead
    refine ⟨fun hover => absurd hover.2 (Nat.not_lt.mpr hin), fun _ => ?_⟩
    rw [hparse]
    simp only [Except.bind_eq_ok, Except.ensure_eq_ok, exists_const]
    refine ⟨hmax, _, hhead, ?_⟩
    dsimp only
    rw [if_pos hshort]
    rfl
  · have hnone : Text.find headEnd p = none := by
      rcases hp : Text.find headEnd p with _ | j
      · rfl
      · have hle := Text.find_le hp
        obtain rfl := Option.some_inj.mp ((Text.find_append hp x).symm.trans hfind)
        exact absurd hle hin
    rw [parse_of_find_none hnone]
    exact ⟨fun hover => if_pos hover.1, fun hno => if_neg fun hlt => hno ⟨hlt, by omega⟩⟩

/-- A beginning of a request that is not all of it. -/
theorem length_lt_of_ne_nil (hS : p ++ x = S) (hx : x ≠ []) : p.length < S.length := by
  rw [← hS, List.length_append]
  exact Nat.lt_add_of_pos_right (List.length_pos_iff.mpr hx)

/-! ## Deliveries -/

/-- A string arrives in these pieces: in time, and each of them something. -/
structure Delivers (chunks : List Bytes) (S : Bytes) : Prop where
  nonempty : ∀ chunk ∈ chunks, chunk ≠ []
  whole : chunks.flatten = S

/-- No request is larger than what is read at most. -/
theorem length_le_of_parse (h : parse S = .ok (some (r, S.length))) :
    S.length ≤ headMax + bodyMax + 4 := by
  obtain ⟨hd, rest, hframed⟩ := exists_framed h
  have hused := hframed.used
  have hhead := hframed.headMax
  have hbody := hframed.bodyMax
  simp only [List.length_append] at hused
  have hsep : headEnd.length = 4 := rfl
  omega

/-- While bytes are missing, the loop goes on with those that come next. -/
theorem readRequest_cons {chunk : Bytes} {incoming : List Incoming} (h : parse p = .ok none)
    (hchunk : chunk ≠ []) (hmax : (p ++ chunk).length ≤ headMax + bodyMax + 4) :
    readRequest debug p (.bytes chunk :: incoming) = readRequest debug (p ++ chunk) incoming := by
  rw [readRequest, h]
  dsimp only
  rw [if_neg hchunk, if_neg (Nat.not_lt.mpr hmax)]

theorem readRequest_of_parse_error {e : HttpError} {incoming : List Incoming}
    (h : parse p = .error e) : readRequest debug p incoming = .error (e.text debug) := by
  unfold readRequest
  rw [h]

theorem readRequest_whole (h : parse S = .ok (some (r, S.length))) :
    readRequest debug S [] = .ok r := by
  rw [readRequest, h]
  exact if_neg fun hne => hne rfl

/-- **What the loop makes of a delivery**: the request, if none of the beginnings it parses is
overlong, and otherwise a refusal of the head. -/
theorem readRequest_delivered (hchunks : ∀ chunk ∈ chunks, chunk ≠ [])
    (hS : p ++ chunks.flatten = S) (h : parse S = .ok (some (r, S.length))) :
    (readRequest debug p (chunks.map .bytes) = .ok r ∧
        ∀ k < chunks.length, ¬ Overlong (headLength S) (p ++ (chunks.take k).flatten).length) ∨
      (readRequest debug p (chunks.map .bytes) = .error (HttpError.headOver.text debug) ∧
        ∃ k < chunks.length, Overlong (headLength S) (p ++ (chunks.take k).flatten).length) := by
  induction chunks generalizing p with
  | nil =>
    obtain rfl : p = S := by simpa using hS
    exact .inl ⟨readRequest_whole h, fun k hk => absurd hk (Nat.not_lt_zero k)⟩
  | cons chunk chunks ih =>
    rw [List.forall_mem_cons] at hchunks
    have hmore : (chunk :: chunks).flatten ≠ [] := by
      rw [List.flatten_cons]
      exact List.append_ne_nil_of_left_ne_nil hchunks.1 _
    obtain ⟨hover, hnone⟩ := parse_beginning h hS (length_lt_of_ne_nil hS hmore)
    by_cases hlong : Overlong (headLength S) p.length
    · exact .inr ⟨readRequest_of_parse_error (hover hlong), 0, Nat.succ_pos _, by simpa using hlong⟩
    · have hjoin : (p ++ chunk) ++ chunks.flatten = S := by
        rw [List.append_assoc, ← List.flatten_cons, hS]
      have hstep : readRequest debug p ((chunk :: chunks).map .bytes) =
          readRequest debug (p ++ chunk) (chunks.map .bytes) := by
        have hlen := length_le_of_parse h
        rw [← hjoin, List.length_append] at hlen
        exact readRequest_cons (hnone hlong) hchunks.1 (by omega)
      have hshift : ∀ k, p ++ ((chunk :: chunks).take (k + 1)).flatten =
          (p ++ chunk) ++ (chunks.take k).flatten := fun k => by
        rw [List.take_succ_cons, List.flatten_cons, List.append_assoc]
      rw [hstep]
      rcases ih hchunks.2 hjoin with ⟨hok, hall⟩ | ⟨herr, k, hk, hbad⟩
      · refine .inl ⟨hok, fun k hk => ?_⟩
        cases k with
        | zero => simpa using hlong
        | succ k =>
          rw [hshift]
          exact hall k (Nat.lt_of_succ_lt_succ hk)
      · exact .inr ⟨herr, k + 1, Nat.succ_lt_succ hk, by rwa [hshift]⟩

/-- When the request is returned, for one delivery. -/
theorem readRequest_iff (hS : Delivers chunks S) (h : parse S = .ok (some (r, S.length))) :
    readRequest debug [] (chunks.map .bytes) = .ok r ↔
      ∀ k < chunks.length, ¬ Overlong (headLength S) (chunks.take k).flatten.length := by
  rcases readRequest_delivered (p := []) hS.nonempty hS.whole h with
    ⟨hok, hall⟩ | ⟨herr, k, hk, hbad⟩
  · exact ⟨fun _ => hall, fun _ => hok⟩
  · rw [herr]
    exact ⟨fun hok => (by cases hok), fun hall => absurd hbad (hall k hk)⟩

/-- Any bytes can arrive one at a time. -/
theorem delivers_one (S : Bytes) : Delivers (S.map fun b => [b]) S where
  nonempty := List.forall_mem_map.mpr fun _ _ => List.cons_ne_nil _ _
  whole := by rw [← List.flatMap_def, List.flatMap_singleton']

/-- There is a beginning that is overlong, unless the head leaves room for an empty line. -/
theorem exists_overlong_iff (h : parse S = .ok (some (r, S.length))) :
    (∃ k < S.length, Overlong (headLength S) k) ↔ ¬ headLength S + 3 ≤ headMax := by
  obtain ⟨i, hfind, -, -, hused, -, -⟩ := parse_eq_some.mp h
  have hlen : headLength S = i := by rw [headLength, hfind, Option.getD_some]
  rw [hlen]
  constructor
  · rintro ⟨k, -, hlo, hhi⟩
    omega
  · intro hlong
    exact ⟨headMax + 1, by omega, Nat.lt_succ_self _, by omega⟩

/-- Such a request is refused if its bytes arrive one at a time. -/
theorem readRequest_one (h : parse S = .ok (some (r, S.length)))
    (hlong : ¬ headLength S + 3 ≤ headMax) :
    readRequest debug [] ((S.map fun b => [b]).map .bytes) =
      .error (HttpError.headOver.text debug) := by
  obtain ⟨k, hk, hover⟩ := (exists_overlong_iff h).mpr hlong
  have hone := delivers_one S
  rcases readRequest_delivered (p := []) hone.nonempty hone.whole h with ⟨-, hall⟩ | ⟨herr, -⟩
  · have hno := hall k (by rwa [List.length_map])
    rw [← List.map_take, (delivers_one (S.take k)).whole, List.nil_append,
      List.length_take_of_le (Nat.le_of_lt hk)] at hno
    exact absurd hover hno
  · exact herr

/-- **How a request arrives makes no difference exactly if its head leaves room for an empty line
below the bound**; the same holds of whether every beginning of it is answered with "not yet".  The
bound on all that is read is not met by any request. -/
theorem any_delivery_iff (h : parse S = .ok (some (r, S.length))) :
    ((∀ debug chunks, Delivers chunks S → readRequest debug [] (chunks.map .bytes) = .ok r) ↔
        headLength S + 3 ≤ headMax) ∧
      ((∀ p x, p ++ x = S → x ≠ [] → parse p = .ok none) ↔ headLength S + 3 ≤ headMax) ∧
      S.length ≤ headMax + bodyMax + 4 := by
  have hexists := exists_overlong_iff h
  refine ⟨⟨fun hall => ?_, fun hroom debug chunks hS => ?_⟩,
    ⟨fun hall => ?_, fun hroom p x hS hx => ?_⟩, length_le_of_parse h⟩
  · -- one byte at a time, every beginning is parsed
    by_contra hlong
    have hok := hall Text.debug _ (delivers_one S)
    rw [readRequest_one h hlong] at hok
    cases hok
  · refine (readRequest_iff hS h).mpr fun k _ hover => ?_
    obtain ⟨hlo, hhi⟩ := hover
    omega
  · by_contra hlong
    obtain ⟨k, hk, hover⟩ := hexists.mpr hlong
    have hS := List.take_append_drop k S
    have hk' : (S.take k).length = k := List.length_take_of_le (Nat.le_of_lt hk)
    have hparse := (parse_beginning h hS (by rwa [hk'])).1 (by rwa [hk'])
    rw [hall _ _ hS (fun hnil => absurd (List.drop_eq_nil_iff.mp hnil)
      (Nat.not_le.mpr hk))] at hparse
    cases hparse
  · refine (parse_beginning h hS (length_lt_of_ne_nil hS hx)).2 fun hover => ?_
    obtain ⟨hlo, hhi⟩ := hover
    omega

/-! A request with the longest head that is accepted. -/

namespace LongHeadSample

def firstLine : Bytes := Text.ascii "GET / HTTP/1.1"

def field : Bytes := Text.ascii "A:" ++ List.replicate 16366 0x61

def head : Bytes := firstLine ++ crlf ++ field

def request : Bytes := head ++ headEnd

def parsed : Request := ⟨Text.ascii "GET", Text.ascii "/", []⟩

theorem length_head : head.length = headMax := by
  have hfirst : firstLine.length = 14 := by decide
  have hname : (Text.ascii "A:").length = 2 := by decide
  simp only [head, field, List.length_append, List.length_replicate, hfirst, hname]
  rfl

theorem cr_notMem_field : (0x0D : UInt8) ∉ field := by
  have hname : (0x0D : UInt8) ∉ Text.ascii "A:" := by decide
  rw [field, List.mem_append, not_or]
  exact ⟨hname, fun h => absurd (List.eq_of_mem_replicate h) (by decide)⟩

theorem find_request : Text.find headEnd request = some headMax := by
  have hend : Text.find headEnd headEnd = some 0 := by decide
  have hfield : Text.find headEnd (0x0A :: field ++ headEnd) = some ((0x0A :: field).length + 0) :=
    Text.find_append_left (by simpa using cr_notMem_field) hend
  rw [Nat.add_zero] at hfield
  -- the line end before the field is not the start of an empty line
  have hline : Text.find headEnd (0x0D :: (0x0A :: field ++ headEnd)) =
      some ((0x0A :: field).length + 1) := by
    have hstart : List.isPrefixOf headEnd (0x0D :: (0x0A :: field ++ headEnd)) = false := rfl
    rw [Text.find, hstart, if_neg Bool.false_ne_true, hfield, Option.map_some]
  have hrequest : request = firstLine ++ 0x0D :: (0x0A :: field ++ headEnd) := by
    simp [request, head]
  have hcrlf : crlf.length = 2 := rfl
  rw [hrequest, Text.find_append_left (by decide) hline, ← length_head, head, List.length_append,
    List.length_append, hcrlf, List.length_cons]
  exact congrArg some (by omega)

theorem splitCrlf_head : Text.splitCrlf head = [firstLine, field] := by
  have hfirst : ¬ crlf <:+: firstLine := by decide
  have hfield : ¬ crlf <:+: field := fun h =>
    cr_notMem_field (h.subset List.mem_cons_self)
  rw [head, Text.splitCrlf_append hfirst, Text.splitCrlf_eq_singleton hfield]

theorem utf8Valid_head : Text.utf8Valid head = true := by
  refine Chars.utf8Valid_of_ascii fun b hb => ?_
  rw [head, field, ← List.append_assoc, List.mem_append] at hb
  rcases hb with hb | hb
  · have hsmall : ∀ b ∈ firstLine ++ crlf ++ Text.ascii "A:", b.toNat < 0x80 := by
      decide +kernel
    exact hsmall b hb
  · rw [List.eq_of_mem_replicate hb]
    decide

theorem splitOnce_field :
    Text.splitOnce 0x3A field = some (Text.ascii "A", List.replicate 16366 0x61) :=
  Text.splitOnce_eq_some.mpr ⟨by decide, rfl⟩

theorem header_field : header none field = .ok none := by
  simp only [header, Except.bind_eq_ok, Except.ensure_eq_ok, Except.ofOption_eq_ok]
  refine ⟨_, splitOnce_field, (), by decide, (), by decide, ?_⟩
  rw [if_neg (by decide)]
  rfl

theorem readHead_head : readHead head = .ok (parsed.method, parsed.path, 0) := by
  simp only [readHead, Except.bind_eq_ok, Except.ensure_eq_ok, exists_const, splitCrlf_head]
  refine ⟨utf8Valid_head, ⟨Text.ascii "GET", Text.ascii "/", Text.ascii "HTTP/1.1"⟩, by decide,
    by decide, by decide, none, ?_, by decide, rfl⟩
  exact Except.bind_eq_ok.mpr ⟨none, header_field, rfl⟩

theorem parse_request : parse request = .ok (some (parsed, request.length)) := by
  have hlen : request.length = headMax + 4 := by
    rw [request, List.length_append, length_head]
    rfl
  refine parse_eq_some.mpr ⟨headMax, find_request, le_rfl, ?_, ?_, le_rfl, ?_⟩
  · rw [← length_head, request, List.take_left]
    exact readHead_head
  · rw [hlen]
    rfl
  · rfl

end LongHeadSample

open LongHeadSample in
/-- The longest head that is accepted whole is refused when it arrives in bytes. -/
theorem longHead_delivery_refused :
    parse request = .ok (some (parsed, request.length)) ∧
      ∃ chunks, Delivers chunks request ∧
        readRequest Text.debug [] (chunks.map .bytes) = .error "request head over 16384 bytes" := by
  refine ⟨parse_request, _, delivers_one request, readRequest_one parse_request ?_⟩
  rw [headLength, find_request, Option.getD_some]
  decide

open LongHeadSample in
/-- The criterion on that request. -/
theorem longHead_any_delivery_iff :
    ((∀ debug chunks, Delivers chunks request →
        readRequest debug [] (chunks.map .bytes) = .ok parsed) ↔ headLength request + 3 ≤ headMax) ∧
      ((∀ p x, p ++ x = request → x ≠ [] → parse p = .ok none) ↔ headLength request + 3 ≤ headMax) ∧
      request.length ≤ headMax + bodyMax + 4 :=
  any_delivery_iff parse_request

end TactiqAttest.Service
