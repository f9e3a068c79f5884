import TactiqAttest.Service.GatewayConfig

/-!
# Timeouts

The guard wants a timeout of three seconds at least.  A number of seconds is taken from the file as
64 bits and multiplied by 1000 in 64 bits, so a number from 18446744073709552 on overflows: the
guard panics, or, compiled without overflow checks, judges the remainder.

`judges_exactly_iff`: the guard judges the timeout as the number of milliseconds it stands for
exactly where this product does not overflow.
-/

namespace TactiqAttest.Service

namespace GatewayConfig

/-- A string writes this many milliseconds: a number of 64 bits, in seconds or in milliseconds. -/
def WritesDuration (t : String) (ms : ℕ) : Prop :=
  ∃ ds N, ds ≠ [] ∧ (∀ c ∈ ds, c.isDigit = true) ∧ Nat.ofDigitChars 10 ds 0 = N ∧ N < 2 ^ 64 ∧
    (t.toList = ds ++ "s".toList ∧ ms = 1000 * N ∨ t.toList = ds ++ "ms".toList ∧ ms = N)

/-- The other six settings are there once each, and as they have to be, and there is no inline
mapping. -/
structure OthersAccepted (text listen : String) : Prop where
  brace : '{' ∉ text.toList
  extAuthz : (all (entries text) "extAuthz").length = 1
  host : all (entries text) "host" = [listen]
  failureMode : all (entries text) "failureMode" = ["deny"]
  includeRequestBody : (all (entries text) "includeRequestBody").length = 1
  maxRequestBytes : ∃ max, all (entries text) "maxRequestBytes" = [max] ∧ TakesBody max
  allowPartialMessage : all (entries text) "allowPartialMessage" = ["false"]

/-- A number of seconds whose product with 1000 does not fit in 64 bits. -/
def TooLarge (t : List Char) : Prop :=
  ¬ "ms".toList <:+ t ∧ ∃ n N, t = n ++ "s".toList ∧
    Chars.parseUnsigned (2 ^ 64) (Chars.trim n) = some N ∧ 2 ^ 64 ≤ 1000 * N

/-- The guard gets to such a timeout. -/
def Overflows (text listen : String) : Prop :=
  '{' ∉ text.toList ∧ (all (entries text) "extAuthz").length = 1 ∧
    all (entries text) "host" = [listen] ∧ all (entries text) "failureMode" = ["deny"] ∧
    ∃ t, all (entries text) "requestTimeout" = [t] ∧ TooLarge t.toList

variable {text listen t : String} {ms N : ℕ} {checks : Bool} {v n : List Char}

/-! ## The product -/

theorem toNat_ofNat (hN : N < 2 ^ 64) : (UInt64.ofNat N).toNat = N := by
  rw [UInt64.toNat_ofNat', Nat.mod_eq_of_lt hN]

theorem mul_of_lt (h : 1000 * N < 2 ^ 64) :
    mul checks (UInt64.ofNat N) 1000 = .ok (UInt64.ofNat (1000 * N)) := by
  have hN : (UInt64.ofNat N).toNat = N := toNat_ofNat (by omega)
  have hthousand : (1000 : UInt64).toNat = 1000 := rfl
  rw [mul, hN, hthousand, if_neg (by omega)]
  refine congrArg _ (UInt64.toNat_inj.mp ?_)
  rw [UInt64.toNat_mul, hN, hthousand, toNat_ofNat h, Nat.mul_comm, Nat.mod_eq_of_lt h]

theorem mul_overflow (hN : N < 2 ^ 64) :
    mul true (UInt64.ofNat N) 1000 = .error .overflow ↔ 2 ^ 64 ≤ 1000 * N := by
  have hthousand : (1000 : UInt64).toNat = 1000 := rfl
  rw [mul, toNat_ofNat hN, hthousand, Nat.mul_comm]
  split_ifs with h
  · exact ⟨fun _ => h.2, fun _ => rfl⟩
  · exact ⟨fun h' => (by cases h'), fun h' => absurd ⟨rfl, h'⟩ h⟩

/-- **Where the parser of a duration panics.** -/
theorem parseDurationMs_overflow :
    parseDurationMs true v = .error .overflow ↔ TooLarge v := by
  unfold parseDurationMs TooLarge
  rcases hms : Chars.stripSuffix "ms".toList v with _ | n
  · rw [Chars.stripSuffix_eq_none] at hms
    rcases hs : Chars.stripSuffix "s".toList v with _ | n
    · rw [Chars.stripSuffix_eq_none] at hs
      simp only [reduceCtorEq, false_iff, not_and, not_exists]
      rintro - n N rfl
      exact absurd (List.suffix_append _ _) hs
    · obtain rfl := Chars.append_of_stripSuffix hs
      rcases hparse : Chars.parseUnsigned (2 ^ 64) (Chars.trim n) with _ | N
      · simp only [hparse]
        refine ⟨fun h => (by cases h), ?_⟩
        rintro ⟨-, n', N, heq, hN, -⟩
        rw [← List.append_cancel_right heq, hparse] at hN
        cases hN
      · simp only [hparse]
        rw [Except.map_eq_error, mul_overflow (Chars.parseUnsigned_lt hparse)]
        refine ⟨fun h => ⟨hms, n, N, rfl, hparse, h⟩, ?_⟩
        rintro ⟨-, n', N', heq, hN', hle⟩
        rw [← List.append_cancel_right heq, hparse] at hN'
        rwa [Option.some_inj.mp hN']
  · obtain rfl := Chars.append_of_stripSuffix hms
    simp [List.suffix_append]

/-! ## What is judged -/

/-- Digits are not trimmed, and are their number. -/
theorem parseUnsigned_digits {ds : List Char} (hne : ds ≠ []) (h : ∀ c ∈ ds, c.isDigit = true)
    (hN : Nat.ofDigitChars 10 ds 0 < 2 ^ 64) :
    Chars.parseUnsigned (2 ^ 64) (Chars.trim ds) = some (Nat.ofDigitChars 10 ds 0) := by
  rw [Chars.trim_eq_self fun c hc => Chars.isWhitespace_of_isDigit (h c hc)]
  exact (Chars.parseUnsigned_eq_some fun hmem => absurd (h _ hmem) (by decide)).mpr
    ⟨hne, h, rfl, hN⟩

/-- Digits followed by `s` do not end in `ms`. -/
theorem not_ms_suffix {ds : List Char} (h : ∀ c ∈ ds, c.isDigit = true) :
    ¬ "ms".toList <:+ ds ++ "s".toList := by
  rintro ⟨init, hinit⟩
  have hms : "ms".toList = ['m'] ++ "s".toList := rfl
  rw [hms, ← List.append_assoc] at hinit
  have hmem : 'm' ∈ ds := by
    rw [← List.append_cancel_right hinit]
    simp
  exact absurd (h _ hmem) (by decide)

/-- A duration that is written in full is read as it is, unless it is too large. -/
theorem parseDurationMs_of_writes (h : WritesDuration t ms) (hsmall : ¬ TooLarge t.toList) :
    parseDurationMs checks t.toList = .ok (some (UInt64.ofNat ms)) ∧ ms < 2 ^ 64 := by
  obtain ⟨ds, N, hne, hdigits, rfl, hN, ⟨ht, rfl⟩ | ⟨ht, rfl⟩⟩ := h
  · rw [ht] at hsmall ⊢
    have hnot := not_ms_suffix hdigits
    have hparse := parseUnsigned_digits hne hdigits hN
    have hlt : 1000 * Nat.ofDigitChars 10 ds 0 < 2 ^ 64 :=
      Nat.lt_of_not_le fun hle => hsmall ⟨hnot, ds, _, rfl, hparse, hle⟩
    rw [parseDurationMs, Chars.stripSuffix_eq_none.mpr hnot, Chars.stripSuffix_append]
    simp only [hparse, mul_of_lt hlt]
    exact ⟨rfl, hlt⟩
  · rw [ht, parseDurationMs, Chars.stripSuffix_append]
    simp only [parseUnsigned_digits hne hdigits hN]
    exact ⟨rfl, hN⟩

/-- A duration is long enough exactly if it is three seconds, as a number. -/
theorem longEnough_iff (h : WritesDuration t ms) (hsmall : ¬ TooLarge t.toList) :
    LongEnough checks t ↔ 3000 ≤ ms := by
  obtain ⟨hparse, hlt⟩ : parseDurationMs checks t.toList = .ok (some (UInt64.ofNat ms)) ∧
      ms < 2 ^ 64 := parseDurationMs_of_writes h hsmall
  have hle : minTimeoutMs ≤ UInt64.ofNat ms ↔ 3000 ≤ ms := by
    rw [UInt64.le_iff_toNat_le, toNat_ofNat hlt]
    rfl
  rw [← hle, LongEnough, hparse]
  simp

theorem sound_iff_longEnough (h : OthersAccepted text listen)
    (ht : all (entries text) "requestTimeout" = [t]) :
    Sound checks listen (entries text) ↔ LongEnough checks t := by
  constructor
  · intro hsound
    obtain ⟨t', ht', hlong⟩ := hsound.requestTimeout
    rw [ht] at ht'
    rwa [(List.cons.inj ht').1]
  · exact fun hlong => ⟨h.extAuthz, h.host, h.failureMode, ⟨t, ht, hlong⟩, h.includeRequestBody,
      h.maxRequestBytes, h.allowPartialMessage⟩

end GatewayConfig

open GatewayConfig

/-- **The guard judges the timeout exactly**, and does not panic, where it does not get to a number
of seconds whose product with 1000 overflows. -/
theorem judges_exactly_iff (text listen : String) :
    (checkGatewayConfig true text listen ≠ .error .overflow ∧
      ∀ checks t ms, OthersAccepted text listen → all (entries text) "requestTimeout" = [t] →
        WritesDuration t ms → (checkGatewayConfig checks text listen = .ok () ↔ 3000 ≤ ms)) ↔
    ¬ Overflows text listen := by
  have hpanic : checkGatewayConfig true text listen = .error .overflow ↔ Overflows text listen := by
    simp only [checkGatewayConfig_overflow, parseDurationMs_overflow, Overflows]
  rw [ne_eq, hpanic]
  refine ⟨And.left, fun hfits => ⟨hfits, fun checks t ms hothers ht hwrites => ?_⟩⟩
  have hsmall : ¬ TooLarge t.toList := fun hlarge =>
    hfits ⟨hothers.brace, hothers.extAuthz, hothers.host, hothers.failureMode, t, ht, hlarge⟩
  rw [checkGatewayConfig_ok, sound_iff_longEnough hothers ht, longEnough_iff hwrites hsmall]
  exact and_iff_right hothers.brace

namespace LongTimeout

/-- The lines of a configuration that is accepted, but for its timeout. -/
def lines : List (List Char) :=
  ["- policies:", "    extAuthz:", "      host: 127.0.0.1:49318", "      failureMode: deny",
    "      includeRequestBody:", "        maxRequestBytes: 1048576",
    "        allowPartialMessage: false", "      requestTimeout: 18446744073709552s"].map
      String.toList

def text : String := textOf lines

def listen : String := "127.0.0.1:49318"

theorem brace_notMem : '{' ∉ text.toList := notMem_textOf (by decide) (by decide +kernel)

theorem entries_text : entries text =
    [("policies", ""), ("extAuthz", ""), ("host", "127.0.0.1:49318"), ("failureMode", "deny"),
      ("includeRequestBody", ""), ("maxRequestBytes", "1048576"), ("allowPartialMessage", "false"),
      ("requestTimeout", "18446744073709552s")] := by
  have hne : lines ≠ [] := List.cons_ne_nil _ _
  rw [text, entries_textOf hne (by decide)]
  decide +kernel

theorem othersAccepted : OthersAccepted text listen where
  brace := brace_notMem
  extAuthz := by rw [entries_text]; decide
  host := by rw [entries_text]; decide
  failureMode := by rw [entries_text]; decide
  includeRequestBody := by rw [entries_text]; decide
  maxRequestBytes := by
    rw [entries_text]
    exact ⟨"1048576", by decide +kernel, 1048576, by decide, by decide, by decide⟩
  allowPartialMessage := by rw [entries_text]; decide

theorem all_text : all (entries text) "requestTimeout" = ["18446744073709552s"] := by
  rw [entries_text]
  decide

theorem writes : WritesDuration "18446744073709552s" 18446744073709552000 :=
  ⟨"18446744073709552".toList, 18446744073709552, by decide, List.all_eq_true.mp (by decide),
    by decide, by decide, .inl ⟨rfl, rfl⟩⟩

end LongTimeout

/-- A timeout of half a billion years: with overflow checks the guard panics, without them it finds
384 milliseconds. -/
theorem longTimeout_misjudged :
    OthersAccepted LongTimeout.text LongTimeout.listen ∧
      all (entries LongTimeout.text) "requestTimeout" = ["18446744073709552s"] ∧
      WritesDuration "18446744073709552s" 18446744073709552000 ∧
      checkGatewayConfig true LongTimeout.text LongTimeout.listen = .error .overflow ∧
      checkGatewayConfig false LongTimeout.text LongTimeout.listen =
        .error (.refuse "gateway config requestTimeout 384 ms is below 3000 ms") := by
  refine ⟨LongTimeout.othersAccepted, LongTimeout.all_text, LongTimeout.writes, ?_, ?_⟩
  all_goals
    simp only [checkGatewayConfig, Except.ensure, if_pos LongTimeout.brace_notMem,
      LongTimeout.entries_text]
    decide

end TactiqAttest.Service
