import TactiqAttest.Bytes.Chars
import TactiqAttest.Service.Http

/-!
# The guard on the gateway configuration

`check_gateway_config` of the stop service reads a YAML file line by line and refuses to start the
service if one of seven settings is missing, wrong or ambiguous.  A line is an entry if it has a
colon once comments are off; its key is what stands before the colon, without list dashes and
blanks, and its value is what stands after it, without blanks and quotes.

A timeout in seconds is multiplied by 1000 in 64 bits.  What happens when that overflows depends on
how the service is compiled, which is the parameter `checks`: with overflow checks it panics,
without them it goes on with the remainder.

* `checkGatewayConfig_ok` is what the guard accepts: no inline mapping, and `Sound` entries;
* `entries_textOf`: the entries of a text are those of its lines.
-/

namespace TactiqAttest.Service

namespace GatewayConfig

/-- How the guard ends when it does not accept: with an error, or with the panic of an arithmetic
overflow. -/
inductive Refusal where
  | refuse (text : String)
  | overflow
  deriving DecidableEq

/-! ## Entries -/

/-- A double or a single quote. -/
def isQuote (c : Char) : Bool := c == '"' || c == '\''

/-- `norm`. -/
def norm (v : List Char) : List Char := Chars.trim (Chars.trimMatches isQuote (Chars.trim v))

/-- `trim_start_matches("- ")`. -/
def trimDashes : List Char → List Char
  | '-' :: ' ' :: line => trimDashes line
  | line => line

/-- One line of `entries`. -/
def entry (line : List Char) : Option (String × String) := do
  let line := line.takeWhile (· != '#')
  let (k, v) ← Chars.splitOnce ':' (Chars.trim (trimDashes (Chars.trim line)))
  return (String.ofList (Chars.trim k), String.ofList (norm v))

/-- `entries`. -/
def entries (text : String) : List (String × String) := (Chars.lines text.toList).filterMap entry

/-- `all`: the values of a key. -/
def all (e : List (String × String)) (k : String) : List String :=
  (e.filter fun entry => entry.1 = k).map Prod.snd

/-- `one`: the value of a key that stands once. -/
def one (e : List (String × String)) (k : String) : Except Refusal String :=
  match all e k with
  | [v] => .ok v
  | [] => .error (.refuse s!"gateway config has no {k}")
  | _ => .error
      (.refuse s!"gateway config has more than one {k}; the guard cannot tell which applies")

/-! ## Values -/

/-- `MIN_TIMEOUT_MS`. -/
def minTimeoutMs : UInt64 := 3000

/-- `a * b`, with overflow checks or without. -/
def mul (checks : Bool) (a b : UInt64) : Except Refusal UInt64 :=
  if checks = true ∧ 2 ^ 64 ≤ a.toNat * b.toNat then .error .overflow else .ok (a * b)

/-- `parse_duration_ms`. -/
def parseDurationMs (checks : Bool) (v : List Char) : Except Refusal (Option UInt64) :=
  match Chars.stripSuffix "ms".toList v with
  | some n => .ok ((Chars.parseUnsigned (2 ^ 64) (Chars.trim n)).map UInt64.ofNat)
  | none =>
    match Chars.stripSuffix "s".toList v with
    | some n =>
      match Chars.parseUnsigned (2 ^ 64) (Chars.trim n) with
      | some s => some <$> mul checks (UInt64.ofNat s) 1000
      | none => .ok none
    | none => .ok none

/-- What the guard asks of the timeout. -/
def checkTimeout (checks : Bool) (t : String) : Except Refusal Unit := do
  match ← parseDurationMs checks t.toList with
  | some ms =>
    Except.ensure (minTimeoutMs ≤ ms)
      (.refuse s!"gateway config requestTimeout {ms} ms is below {minTimeoutMs} ms")
  | none =>
    .error (.refuse (s!"gateway config requestTimeout {Chars.debug t.toList} is not a duration " ++
      "like 5s or 5000ms"))

/-- What the guard asks of the size of a body. -/
def checkMaxBytes (max : String) : Except Refusal Unit := do
  let n ← Except.ofOption
    (.refuse s!"gateway config maxRequestBytes {Chars.debug max.toList} is not a number")
    (Chars.parseUnsigned (2 ^ 64) max.toList)
  Except.ensure (n ≠ 0 ∧ n ≤ bodyMax)
    (.refuse s!"gateway config maxRequestBytes {n} must be 1..={bodyMax}")

end GatewayConfig

open GatewayConfig in
/-- `check_gateway_config`. -/
def checkGatewayConfig (checks : Bool) (text listen : String) : Except Refusal Unit := do
  -- an inline mapping
  Except.ensure ('{' ∉ text.toList)
    (.refuse ("gateway config uses inline YAML mappings; write them as blocks so they can be " ++
      "checked"))
  let e := entries text
  Except.ensure ((all e "extAuthz").length = 1)
    (.refuse "gateway config must have exactly one extAuthz block (at listener level)")
  let host ← one e "host"
  Except.ensure (host = listen)
    (.refuse s!"gateway config: the single host entry must be the extAuthz target {listen}")
  let mode ← one e "failureMode"
  Except.ensure (mode = "deny") (.refuse "gateway config must set failureMode: deny explicitly")
  let t ← one e "requestTimeout"
  checkTimeout checks t
  Except.ensure ((all e "includeRequestBody").length = 1)
    (.refuse "gateway config must set includeRequestBody exactly once")
  let max ← one e "maxRequestBytes"
  checkMaxBytes max
  let partialMessage ← one e "allowPartialMessage"
  Except.ensure (partialMessage = "false")
    (.refuse "gateway config must set allowPartialMessage: false explicitly")

namespace GatewayConfig

/-! ## What is accepted -/

/-- A timeout that is long enough. -/
def LongEnough (checks : Bool) (t : String) : Prop :=
  ∃ ms, parseDurationMs checks t.toList = .ok (some ms) ∧ minTimeoutMs ≤ ms

/-- A size of a body that the service can take. -/
def TakesBody (max : String) : Prop :=
  ∃ n, Chars.parseUnsigned (2 ^ 64) max.toList = some n ∧ n ≠ 0 ∧ n ≤ bodyMax

/-- The entries set each of the seven settings once, and as they have to be. -/
structure Sound (checks : Bool) (listen : String) (e : List (String × String)) : Prop where
  extAuthz : (all e "extAuthz").length = 1
  host : all e "host" = [listen]
  failureMode : all e "failureMode" = ["deny"]
  requestTimeout : ∃ t, all e "requestTimeout" = [t] ∧ LongEnough checks t
  includeRequestBody : (all e "includeRequestBody").length = 1
  maxRequestBytes : ∃ max, all e "maxRequestBytes" = [max] ∧ TakesBody max
  allowPartialMessage : all e "allowPartialMessage" = ["false"]

variable {checks : Bool} {text listen k t max : String} {e : List (String × String)}

theorem one_ok {v : String} : one e k = .ok v ↔ all e k = [v] := by
  unfold one
  rcases all e k with _ | ⟨w, _ | ⟨_, _⟩⟩
  · simp
  · simp
  · simp

theorem checkTimeout_ok {u : Unit} : checkTimeout checks t = .ok u ↔ LongEnough checks t := by
  unfold checkTimeout LongEnough
  rw [Except.bind_eq_ok]
  constructor
  · rintro ⟨_ | ms, hparse, h⟩
    · cases h
    · exact ⟨ms, hparse, Except.ensure_eq_ok.mp h⟩
  · rintro ⟨ms, hparse, hle⟩
    exact ⟨some ms, hparse, Except.ensure_eq_ok.mpr hle⟩

theorem checkMaxBytes_ok {u : Unit} : checkMaxBytes max = .ok u ↔ TakesBody max := by
  simp only [checkMaxBytes, TakesBody, Except.bind_eq_ok, Except.ofOption_eq_ok,
    Except.ensure_eq_ok]

/-- **What the guard accepts.** -/
theorem checkGatewayConfig_ok :
    checkGatewayConfig checks text listen = .ok () ↔
      '{' ∉ text.toList ∧ Sound checks listen (entries text) := by
  simp only [checkGatewayConfig, Except.bind_eq_ok, Except.ensure_eq_ok, one_ok, checkTimeout_ok,
    checkMaxBytes_ok]
  constructor
  · rintro ⟨-, hbrace, -, hext, _, hhost, -, rfl, _, hmode, -, rfl, t, ht, -, hlong, -, hbody, max,
      hmax, -, htakes, _, hpartial, rfl⟩
    exact ⟨hbrace, hext, hhost, hmode, ⟨t, ht, hlong⟩, hbody, ⟨max, hmax, htakes⟩, hpartial⟩
  · rintro ⟨hbrace, hext, hhost, hmode, ⟨t, ht, hlong⟩, hbody, ⟨max, hmax, htakes⟩, hpartial⟩
    exact ⟨(), hbrace, (), hext, _, hhost, (), rfl, _, hmode, (), rfl, t, ht, (), hlong, (), hbody,
      max, hmax, (), htakes, _, hpartial, rfl⟩

/-! ## Where it panics -/

theorem one_ne_overflow : one e k ≠ .error .overflow := by
  unfold one
  rcases all e k with _ | ⟨w, _ | ⟨_, _⟩⟩ <;> simp

theorem checkTimeout_overflow :
    checkTimeout checks t = .error .overflow ↔
      parseDurationMs checks t.toList = .error .overflow := by
  rw [checkTimeout, Except.bind_eq_error]
  constructor
  · rintro (h | ⟨_ | ms, -, h⟩)
    · exact h
    · cases h
    · cases (Except.ensure_eq_error.mp h).2
  · exact .inl

theorem checkMaxBytes_ne_overflow : checkMaxBytes max ≠ .error .overflow := by
  simp [checkMaxBytes, Except.bind_eq_error, Except.ofOption_eq_error, Except.ensure_eq_error]

/-- **Where the guard panics**: at the timeout, if it gets that far. -/
theorem checkGatewayConfig_overflow :
    checkGatewayConfig checks text listen = .error .overflow ↔
      '{' ∉ text.toList ∧ (all (entries text) "extAuthz").length = 1 ∧
        all (entries text) "host" = [listen] ∧ all (entries text) "failureMode" = ["deny"] ∧
        ∃ t, all (entries text) "requestTimeout" = [t] ∧
          parseDurationMs checks t.toList = .error .overflow := by
  simp only [checkGatewayConfig, Except.bind_eq_error, Except.ensure_eq_error, one_ok,
    one_ne_overflow, checkTimeout_overflow, checkMaxBytes_ne_overflow, Except.ensure_eq_ok,
    reduceCtorEq, and_false, exists_false, false_or, or_false]
  constructor
  · rintro ⟨-, hbrace, -, hext, _, hhost, -, rfl, _, hmode, -, rfl, t, ht, hparse⟩
    exact ⟨hbrace, hext, hhost, hmode, t, ht, hparse⟩
  · rintro ⟨hbrace, hext, hhost, hmode, t, ht, hparse⟩
    exact ⟨(), hbrace, (), hext, _, hhost, (), rfl, _, hmode, (), rfl, t, ht, hparse⟩

/-! ## Lines -/

/-- The text of some lines. -/
def textOf (ls : List (List Char)) : String := String.ofList (['\n'].intercalate ls)

variable {l : List Char} {ls : List (List Char)} {c : Char}

/-- A carriage return at the end of a line does not matter. -/
theorem entry_append_return : entry (l ++ ['\r']) = entry l := by
  have htake : Chars.trim ((l ++ ['\r']).takeWhile (· != '#')) =
      Chars.trim (l.takeWhile (· != '#')) := by
    rw [List.takeWhile_append]
    split_ifs with hall
    · have hself : l.takeWhile (· != '#') = l :=
        List.IsPrefix.eq_of_length (List.takeWhile_prefix _) hall
      have hreturn : ['\r'].takeWhile (· != '#') = ['\r'] := by decide
      rw [hself, hreturn, Chars.trim_append_of_blanks (List.forall_mem_singleton.mpr rfl)]
    · rfl
  simp only [entry, htake]

/-- The entries of a text are those of its lines. -/
theorem entries_textOf (hne : ls ≠ []) (h : ∀ line ∈ ls, '\n' ∉ line) :
    entries (textOf ls) = ls.filterMap entry := by
  have hsplit : (textOf ls).toList.splitOn '\n' = ls := by
    rw [textOf, String.toList_ofList, List.splitOn_intercalate '\n' h hne]
  obtain ⟨init, last, rfl⟩ := (List.eq_nil_or_concat ls).resolve_left hne
  rw [entries, Chars.lines, hsplit]
  simp only [List.concat_eq_append, List.dropLast_concat, List.getLast?_concat,
    List.filterMap_append, List.filterMap_map]
  refine congrArg₂ (· ++ ·) ?_ ?_
  · refine List.filterMap_congr fun line _ => ?_
    rw [Function.comp_apply]
    rcases hstrip : Chars.stripSuffix ['\r'] line with _ | init
    · rfl
    · rw [← Chars.append_of_stripSuffix hstrip, entry_append_return]
      rfl
  · by_cases hlast : last = []
    · rw [hlast]
      decide
    · rw [Option.filter_some, if_pos (by simpa using hlast)]
      rfl

theorem mem_textOf (hc : c ≠ '\n') : c ∈ (textOf ls).toList ↔ ∃ line ∈ ls, c ∈ line := by
  rw [textOf, String.toList_ofList]
  constructor
  · exact fun h => (Chars.mem_parts_or_sep h).resolve_right fun h => hc (List.mem_singleton.mp h)
  · exact fun ⟨_, hline, h⟩ => Chars.mem_intercalate hline h

theorem notMem_textOf (hc : c ≠ '\n') (h : ∀ line ∈ ls, c ∉ line) : c ∉ (textOf ls).toList := by
  rw [mem_textOf hc]
  rintro ⟨line, hline, hmem⟩
  exact h line hline hmem

end GatewayConfig

end TactiqAttest.Service
