import TactiqAttest.Bytes.Cutting
import TactiqAttest.Service.Http

/-!
# The request that was framed

What a request hashes to depends on where its body starts and ends.  Here a head is a structure,
`Head`, with the bytes it is written as, and `parse_framed` says of every accepted buffer that it is
such a head, and no other, an empty line and a body, cut where the head says.

The parser is a search and a reading of what is before the place found.  `parse_of_find` separates
the two, and `parse_eq_some` is the parser without its error paths; everything about framing follows
from the second.
-/

namespace TactiqAttest.Service

open Text (crlf)

/-- The empty line after a head. -/
abbrev headEnd : Bytes := [0x0D, 0x0A, 0x0D, 0x0A]

/-! ## Heads -/

/-- `Transfer-Encoding`, in any case. -/
def isTransferEncoding (name : Bytes) : Prop :=
  Text.eqIgnoreCase name (Text.ascii "transfer-encoding") = true

/-- `Content-Length`, in any case. -/
def isContentLength (name : Bytes) : Prop :=
  Text.eqIgnoreCase name (Text.ascii "content-length") = true

/-- A value that writes a number: its digits, between blanks. -/
def Writes (value : Bytes) (n : ℕ) : Prop :=
  ∃ l digits r, value = l ++ digits ++ r ∧ (∀ c ∈ l ++ r, c = 0x20 ∨ c = 0x09) ∧ digits ≠ [] ∧
    (∀ c ∈ digits, Text.isDigit c = true) ∧ Text.digitsValue digits = n

/-- A head: the three words of its first line, then names and values. -/
structure Head where
  method : Bytes
  path : Bytes
  version : Bytes
  fields : List (Bytes × Bytes)

namespace Head

/-- The first line. -/
def firstLine (h : Head) : Bytes := h.method ++ 0x20 :: (h.path ++ 0x20 :: h.version)

/-- A name and a value, as a line. -/
def fieldLine (f : Bytes × Bytes) : Bytes := f.1 ++ 0x3A :: f.2

def lines (h : Head) : List Bytes := h.firstLine :: h.fields.map fieldLine

/-- What the head is written as. -/
def bytes (h : Head) : Bytes := crlf.intercalate h.lines

/-- The separators are where the parts end, and only there. -/
structure WellFormed (h : Head) : Prop where
  method : (0x20 : UInt8) ∉ h.method
  path : (0x20 : UInt8) ∉ h.path
  version : (0x20 : UInt8) ∉ h.version
  names : ∀ f ∈ h.fields, (0x3A : UInt8) ∉ f.1
  lines : ∀ line ∈ h.lines, ¬ crlf <:+: line

/-- Lines of names and values have one reading. -/
theorem fields_inj {l l' : List (Bytes × Bytes)} (h : ∀ f ∈ l, (0x3A : UInt8) ∉ f.1)
    (h' : ∀ f ∈ l', (0x3A : UInt8) ∉ f.1) (heq : l.map fieldLine = l'.map fieldLine) : l = l' := by
  induction l generalizing l' with
  | nil => exact (List.map_eq_nil_iff.mp heq.symm).symm
  | cons f l ih =>
    obtain ⟨f', l'', rfl, hf, hrest⟩ := List.map_eq_cons_iff.mp heq.symm
    rw [List.forall_mem_cons] at h h'
    obtain ⟨hname, hvalue⟩ := (append_cons_inj h'.1 h.1).mp hf
    rw [ih h.2 h'.2 hrest.symm, Prod.ext hname hvalue]

/-- The bytes of a head have one reading. -/
theorem bytes_inj {h h' : Head} (hh : h.WellFormed) (hh' : h'.WellFormed)
    (heq : h.bytes = h'.bytes) : h = h' := by
  have hlines : h.lines = h'.lines := by
    rw [← Text.splitCrlf_intercalate hh.lines (List.cons_ne_nil _ _),
      ← Text.splitCrlf_intercalate hh'.lines (List.cons_ne_nil _ _)]
    exact congrArg Text.splitCrlf heq
  obtain ⟨hfirst, hfields⟩ := List.cons.inj hlines
  obtain ⟨hmethod, hrest⟩ := (append_cons_inj hh.method hh'.method).mp hfirst
  obtain ⟨hpath, hversion⟩ := (append_cons_inj hh.path hh'.path).mp hrest
  have hf := fields_inj hh.names hh'.names hfields
  cases h
  cases h'
  simp_all

end Head

/-! ## What the parser reads in a head -/

variable {buf head line x : Bytes} {lines : List Bytes} {length length' : Option ℕ} {r : Request}
  {used : ℕ}

theorem requestLine_ok {method path version : Bytes} :
    requestLine line = .ok (method, path, version) ↔
    Text.split 0x20 line = [method, path, version] := by
  unfold requestLine
  split
  case h_1 heq => simp [heq]
  case h_2 hne => exact ⟨fun h => (by cases h), fun h => absurd h (hne _ _ _)⟩

/-- A value of digits, once trimmed. -/
theorem writes_of_trim {value : Bytes}
    (hne : Text.trim (fun c => c == 0x20 || c == 0x09) value ≠ [])
    (hdigits : (Text.trim (fun c => c == 0x20 || c == 0x09) value).all Text.isDigit = true) :
    Writes value (Text.digitsValue (Text.trim (fun c => c == 0x20 || c == 0x09) value)) := by
  obtain ⟨l, r, hvalue, hl, hr⟩ := Text.exists_trim (fun c => c == 0x20 || c == 0x09) value
  refine ⟨l, _, r, hvalue, fun c hc => ?_, hne, List.all_eq_true.mp hdigits, rfl⟩
  have hblank : (c == 0x20 || c == 0x09) = true := (List.mem_append.mp hc).elim (hl c) (hr c)
  simpa using hblank

/-- A header line is a name and a value; a length is a length, and the one there was if there was
one. -/
theorem header_ok (h : header length line = .ok length') :
    ∃ f : Bytes × Bytes, line = Head.fieldLine f ∧ 0x3A ∉ f.1 ∧ ¬ isTransferEncoding f.1 ∧
      (isContentLength f.1 → (∃ n, length' = some n ∧ Writes f.2 n) ∧
        ∀ n, length = some n → length' = some n) ∧
      (¬ isContentLength f.1 → length' = length) := by
  unfold header at h
  simp only [Except.bind_eq_ok, Except.ensure_eq_ok, Except.ofOption_eq_ok] at h
  obtain ⟨⟨name, value⟩, hcut, -, -, -, hte, hrest⟩ := h
  obtain ⟨hname, rfl⟩ := Text.splitOnce_eq_some.mp hcut
  refine ⟨(name, value), rfl, hname, hte, fun hcl => ?_, fun hcl => ?_⟩
  · rw [isContentLength] at hcl
    rw [if_pos hcl] at hrest
    obtain ⟨_, hvalue, hrest⟩ := Except.bind_eq_ok.mp hrest
    obtain ⟨_, hsame, hret⟩ := Except.bind_eq_ok.mp hrest
    obtain ⟨hne, -, hdigits⟩ := Except.ensure_eq_ok.mp hvalue
    rw [Except.ensure_eq_ok] at hsame
    rw [← Except.pure_eq_ok.mp hret]
    refine ⟨⟨_, rfl, writes_of_trim hne hdigits⟩, fun n hn => ?_⟩
    rw [hn, Option.all_some, beq_iff_eq] at hsame
    exact congrArg some hsame.symm
  · rw [isContentLength] at hcl
    rw [if_neg hcl] at hrest
    exact (Except.pure_eq_ok.mp hrest).symm

/-- **All lines after the first are names and values, and all lengths among them are the same.** -/
theorem headers_ok (h : headers length lines = .ok length') :
    ∃ fields : List (Bytes × Bytes), lines = fields.map Head.fieldLine ∧
      (∀ f ∈ fields, 0x3A ∉ f.1 ∧ ¬ isTransferEncoding f.1 ∧
        (isContentLength f.1 → ∃ n, length' = some n ∧ Writes f.2 n)) ∧
      (∀ n, length = some n → length' = some n) ∧
      ((∀ f ∈ fields, ¬ isContentLength f.1) → length' = length) := by
  induction lines generalizing length with
  | nil =>
    cases h
    exact ⟨[], rfl, by simp, fun _ hn => hn, fun _ => rfl⟩
  | cons line lines ih =>
    obtain ⟨mid, hmid, hrest⟩ := Except.bind_eq_ok.mp h
    obtain ⟨f, rfl, hname, hte, hcl, hother⟩ := header_ok hmid
    obtain ⟨fields, rfl, hfields, hkept, hnone⟩ := ih hrest
    have hmidKept : ∀ n, length = some n → mid = some n := by
      intro n hn
      by_cases hc : isContentLength f.1
      · exact (hcl hc).2 n hn
      · exact (hother hc).trans hn
    refine ⟨f :: fields, rfl, ?_, fun n hn => hkept n (hmidKept n hn), fun hno => ?_⟩
    · refine List.forall_mem_cons.mpr ⟨⟨hname, hte, fun hc => ?_⟩, hfields⟩
      obtain ⟨⟨n, hn, hwrites⟩, -⟩ := hcl hc
      exact ⟨n, hkept n hn, hwrites⟩
    · rw [List.forall_mem_cons] at hno
      rw [hnone hno.2, hother hno.1]

/-- The part of the parser that reads a head: method, path and the length of the body. -/
def readHead (head : Bytes) : Except HttpError (Bytes × Bytes × ℕ) := do
  Except.ensure (Text.utf8Valid head) .notUtf8
  let lines := Text.splitCrlf head
  let (method, path, version) ← requestLine (lines.headD [])
  Except.ensure (version = Text.ascii "HTTP/1.1" ∨ version = Text.ascii "HTTP/1.0")
    (.version version)
  Except.ensure (method ≠ [] ∧ method.all Text.isUpper) (.method method)
  let length ← headers none lines.tail
  let n := length.getD 0
  Except.ensure (n ≤ bodyMax) (.bodyOver n)
  return (method, path, n)

/-- **A head that is read is a head that can be written**, without transfer encoding, and all its
lengths are the one that was read. -/
theorem readHead_ok {method path : Bytes} {n : ℕ} (h : readHead head = .ok (method, path, n)) :
    ∃ hd : Head, hd.WellFormed ∧ head = hd.bytes ∧ hd.method = method ∧ hd.path = path ∧
      (∀ f ∈ hd.fields, ¬ isTransferEncoding f.1) ∧
      (∀ f ∈ hd.fields, isContentLength f.1 → Writes f.2 n) ∧
      ((∀ f ∈ hd.fields, ¬ isContentLength f.1) → n = 0) ∧ n ≤ bodyMax := by
  unfold readHead at h
  simp only [Except.bind_eq_ok, Except.ensure_eq_ok, Except.pure_eq_ok] at h
  obtain ⟨-, -, ⟨method', path', version⟩, hline, -, -, -, -, length, hlength, -, hmax, hret⟩ := h
  obtain ⟨rfl, rfl, rfl⟩ : method' = method ∧ path' = path ∧ length.getD 0 = n := by
    simpa using hret
  obtain ⟨first, rest, hlines⟩ := List.exists_cons_of_ne_nil (Text.splitCrlf_ne_nil head)
  have hno : ∀ line ∈ first :: rest, ¬ crlf <:+: line := fun line hl =>
    Text.crlf_not_infix_of_mem_splitCrlf (hlines ▸ hl)
  have hjoin := Text.intercalate_splitCrlf head
  rw [hlines] at hline hlength hjoin
  obtain ⟨-, hwords, rfl⟩ := Text.split_eq_iff.mp (requestLine_ok.mp hline)
  obtain ⟨fields, hfields, hall, -, hnone⟩ := headers_ok hlength
  obtain ⟨hmethod, hpath, hversion⟩ :
      (0x20 : UInt8) ∉ method' ∧ (0x20 : UInt8) ∉ path' ∧ (0x20 : UInt8) ∉ version := by
    simpa using hwords
  have hlinesEq : ([0x20].intercalate [method', path', version]) :: rest =
      Head.lines ⟨method', path', version, fields⟩ := by
    rw [show rest = fields.map Head.fieldLine from hfields]
    simp [Head.lines, Head.firstLine]
  refine ⟨⟨method', path', version, fields⟩,
    ⟨hmethod, hpath, hversion, fun f hf => (hall f hf).1, ?_⟩, ?_, rfl, rfl,
    fun f hf => (hall f hf).2.1, fun f hf hc => ?_, fun hno => ?_, hmax⟩
  · exact hlinesEq ▸ hno
  · rw [Head.bytes, ← hlinesEq, hjoin]
  · obtain ⟨n, hn, hwrites⟩ := (hall f hf).2.2 hc
    rw [hn]
    exact hwrites
  · rw [hnone hno]
    rfl

/-! ## The parser -/

theorem parse_of_find_none (h : Text.find headEnd buf = none) :
    parse buf = if buf.length > headMax then .error .headOver else .ok none := by
  rw [parse, h]

/-- A search, and a reading of what is before the place found. -/
theorem parse_of_find {i : ℕ} (h : Text.find headEnd buf = some i) :
    parse buf = do
      Except.ensure (i ≤ headMax) .headOver
      let (method, path, n) ← readHead (buf.take i)
      if buf.length < i + 4 + n then return none
      else return some (⟨method, path, (buf.drop (i + 4)).take n⟩, i + 4 + n) := by
  rw [parse, h]
  simp only [readHead, bind_assoc, pure_bind]

/-- **When a request is parsed**: there is an empty line, what is before it is a head that can be
read, and as many bytes follow as it says. -/
theorem parse_eq_some : parse buf = .ok (some (r, used)) ↔
    ∃ i, Text.find headEnd buf = some i ∧ i ≤ headMax ∧
      readHead (buf.take i) = .ok (r.method, r.path, r.body.length) ∧
      used = i + 4 + r.body.length ∧ used ≤ buf.length ∧
      r.body = (buf.drop (i + 4)).take r.body.length := by
  rcases hfind : Text.find headEnd buf with _ | i
  · rw [parse_of_find_none hfind]
    constructor
    · intro h
      split_ifs at h
      cases h
    · rintro ⟨i, hi, -⟩
      cases hi
  · rw [parse_of_find hfind]
    simp only [Except.bind_eq_ok, Except.ensure_eq_ok, exists_const, Option.some_inj,
      exists_eq_left']
    refine and_congr_right fun _ => ⟨fun h => ?_, fun h => ?_⟩
    · obtain ⟨⟨method, path, n⟩, hhead, hret⟩ := h
      dsimp only at hret
      split_ifs at hret with hshort
      · cases Except.pure_eq_ok.mp hret
      · cases Except.pure_eq_ok.mp hret
        have hlen : ((buf.drop (i + 4)).take n).length = n := by
          rw [List.length_take, List.length_drop]
          omega
        dsimp only
        rw [hlen]
        exact ⟨hhead, rfl, Nat.le_of_not_lt hshort, rfl⟩
    · obtain ⟨hhead, rfl, hle, hbody⟩ := h
      refine ⟨_, hhead, ?_⟩
      dsimp only
      rw [if_neg (Nat.not_lt.mpr hle), ← hbody]
      rfl

/-- **More bytes change nothing.** -/
theorem parse_append (h : parse buf = .ok (some (r, used))) (x : Bytes) :
    parse (buf ++ x) = .ok (some (r, used)) := by
  obtain ⟨i, hfind, hmax, hhead, rfl, hle, hbody⟩ := parse_eq_some.mp h
  refine parse_eq_some.mpr ⟨i, Text.find_append hfind x, hmax, ?_, rfl, ?_, ?_⟩
  · rwa [List.take_append_of_le_length (by omega)]
  · rw [List.length_append]
    omega
  · rwa [List.drop_append_of_le_length (by omega), List.take_append_of_le_length]
    rw [List.length_drop]
    omega

/-- The buffer is a head, an empty line, the body of this request, and what is left. -/
structure Framed (buf : Bytes) (r : Request) (used : ℕ) (h : Head) (rest : Bytes) : Prop where
  wellFormed : h.WellFormed
  bytes : buf = h.bytes ++ headEnd ++ r.body ++ rest
  used : used = (h.bytes ++ headEnd ++ r.body).length
  /-- There is no empty line before. -/
  first : ∀ pre post, buf = pre ++ headEnd ++ post → h.bytes.length ≤ pre.length
  headMax : h.bytes.length ≤ headMax
  bodyMax : r.body.length ≤ bodyMax
  method : h.method = r.method
  path : h.path = r.path
  noTransferEncoding : ∀ f ∈ h.fields, ¬ isTransferEncoding f.1
  lengths : ∀ f ∈ h.fields, isContentLength f.1 → Writes f.2 r.body.length
  noLength : (∀ f ∈ h.fields, ¬ isContentLength f.1) → r.body = []

/-- There is one head that it can be. -/
theorem Framed.unique {hd hd' : Head} {rest rest' : Bytes} (h : Framed buf r used hd rest)
    (h' : Framed buf r used hd' rest') : hd' = hd ∧ rest' = rest := by
  have hcut : buf = hd.bytes ++ headEnd ++ (r.body ++ rest) := by
    rw [h.bytes, List.append_assoc _ r.body]
  have hcut' : buf = hd'.bytes ++ headEnd ++ (r.body ++ rest') := by
    rw [h'.bytes, List.append_assoc _ r.body]
  -- neither has an empty line before the one of the other
  have hlen : hd'.bytes.length = hd.bytes.length :=
    Nat.le_antisymm (h'.first _ _ hcut) (h.first _ _ hcut')
  have hsame := hcut'.symm.trans hcut
  rw [List.append_assoc, List.append_assoc] at hsame
  obtain ⟨hbytes, hafter⟩ := List.append_inj hsame hlen
  exact ⟨Head.bytes_inj h'.wellFormed h.wellFormed hbytes,
    List.append_cancel_left (List.append_cancel_left hafter)⟩

/-- What is parsed is framed. -/
theorem exists_framed (h : parse buf = .ok (some (r, used))) :
    ∃ hd rest, Framed buf r used hd rest := by
  obtain ⟨i, hfind, hmax, hhead, rfl, hle, hbody⟩ := parse_eq_some.mp h
  obtain ⟨hd, hwf, hbytes, hmethod, hpath, hte, hlengths, hnone, hn⟩ := readHead_ok hhead
  have hlen : hd.bytes.length = i := by
    rw [← hbytes, List.length_take]
    omega
  have hcut : buf = hd.bytes ++ headEnd ++ r.body ++ buf.drop (i + 4 + r.body.length) := by
    have hdrop : buf.drop (i + 4) = r.body ++ buf.drop (i + 4 + r.body.length) := by
      have hsplit := List.take_append_drop r.body.length (buf.drop (i + 4))
      rw [← hbody, List.drop_drop] at hsplit
      exact hsplit.symm
    rw [List.append_assoc, ← hdrop, ← hbytes]
    exact Text.eq_of_find hfind
  exact ⟨hd, _, {
    wellFormed := hwf
    bytes := hcut
    used := by simp only [List.length_append, hlen]; rfl
    first := fun pre post heq => hlen ▸ Text.le_of_find hfind heq
    headMax := hlen ▸ hmax
    bodyMax := hn
    method := hmethod
    path := hpath
    noTransferEncoding := hte
    lengths := hlengths
    noLength := fun hno => List.eq_nil_of_length_eq_zero (hnone hno) }⟩

/-- **The request is the one that was framed**, under one head, and more bytes change nothing. -/
theorem parse_framed (h : parse buf = .ok (some (r, used))) :
    (∃ hd rest, Framed buf r used hd rest ∧
      ∀ hd' rest', Framed buf r used hd' rest' → hd' = hd ∧ rest' = rest) ∧
      ∀ x, parse (buf ++ x) = .ok (some (r, used)) := by
  obtain ⟨hd, rest, hframed⟩ := exists_framed h
  exact ⟨⟨hd, rest, hframed, fun _ _ h' => hframed.unique h'⟩, parse_append h⟩

/-- A request with a body, and what more bytes leave of it. -/
theorem parse_framed_shortPath :
    (∃ hd rest, Framed ZeroByteSample.shortPath ZeroByteSample.shortRequest 42 hd rest ∧
      ∀ hd' rest', Framed ZeroByteSample.shortPath ZeroByteSample.shortRequest 42 hd' rest' →
        hd' = hd ∧ rest' = rest) ∧
      ∀ x, parse (ZeroByteSample.shortPath ++ x) = .ok (some (ZeroByteSample.shortRequest, 42)) :=
  parse_framed ZeroByteSample.parse_shortPath

end TactiqAttest.Service
