import TactiqAttest.Service.GatewayConfig

/-!
# Quoted keys

In YAML a key may be quoted: `"host"` is the key `host`.  The guard takes quotes off values but not
off keys, so a line whose key is quoted sets none of its seven settings.  `quoting_accepts_iff` is
what comes of it: quoting the key of a line makes a configuration that was refused accepted, exactly
where the line sets one of the seven settings a second time and the rest is in order.

* `Marked`: a line whose key has a quote before it is cut, and still has one after;
* `quoted_ok_iff`: with its key quoted, the line might as well not be there.
-/

namespace TactiqAttest.Service

namespace GatewayConfig

/-! ## Lines -/

/-- The parts of a line that has a key: dashes and blanks, the key, and the rest with the colon. -/
structure KeyLine (line pre key rest : List Char) : Prop where
  newline : '\n' ∉ line
  parts : line = pre ++ key ++ rest
  pre : ∀ c ∈ pre, Text.isWhitespace c = true ∨ c = '-'
  key : key ≠ [] ∧ ':' ∉ key
  rest : ∃ blanks value, (∀ c ∈ blanks, Text.isWhitespace c = true) ∧ rest = blanks ++ ':' :: value

/-- The line with its key between quotes. -/
def quoteKey (q : Char) (pre key rest : List Char) : List Char := pre ++ q :: key ++ q :: rest

variable {line pre key rest l : List Char} {ls before after : List (List Char)} {q c : Char}
  {checks : Bool} {listen text k : String} {x : String × String} {e e' : List (String × String)}

/-! ## The quote in a key -/

/-- A quote after dashes and blanks only. -/
def Marked (q : Char) (l : List Char) : Prop :=
  ∃ pre rest, l = pre ++ q :: rest ∧ ∀ c ∈ pre, Text.isWhitespace c = true ∨ c = '-'

theorem isQuote_cases (hq : isQuote q = true) : q = '"' ∨ q = '\'' := by
  simpa [isQuote] using hq

theorem isWhitespace_of_isQuote (hq : isQuote q = true) : Text.isWhitespace q = false := by
  rcases isQuote_cases hq with rfl | rfl <;> decide

theorem Marked.takeWhile (h : Marked q l) (hq : isQuote q = true) :
    Marked q (l.takeWhile (· != '#')) := by
  obtain ⟨pre, rest, rfl, hpre⟩ := h
  refine ⟨pre, rest.takeWhile (· != '#'), ?_, hpre⟩
  have hkeep : ∀ c ∈ pre, (c != '#') = true := fun c hc => by
    rw [bne_iff_ne]
    rintro rfl
    rcases hpre _ hc with h | h <;> exact absurd h (by decide)
  have hquote : (q != '#') = true := by
    rcases isQuote_cases hq with rfl | rfl <;> decide
  rw [List.takeWhile_append_of_pos hkeep, List.takeWhile_cons_of_pos (p := (· != '#')) hquote]

theorem Marked.trim (h : Marked q l) (hq : isQuote q = true) : Marked q (Chars.trim l) := by
  obtain ⟨pre, rest, rfl, hpre⟩ := h
  refine ⟨_, _, Chars.trim_append_cons (isWhitespace_of_isQuote hq), fun c hc => ?_⟩
  exact hpre c ((List.dropWhile_sublist _).subset hc)

theorem Marked.trimDashes (h : Marked q l) (hq : isQuote q = true) : Marked q (trimDashes l) := by
  induction l using trimDashes.induct with
  | case1 line ih =>
    obtain ⟨pre, rest, hline, hpre⟩ := h
    have hmarked : Marked q line := by
      rcases pre with _ | ⟨c, _ | ⟨d, pre⟩⟩
      · obtain ⟨rfl, -⟩ := List.cons.inj hline
        exact absurd hq (by decide)
      · obtain ⟨-, hline⟩ := List.cons.inj hline
        obtain ⟨rfl, -⟩ := List.cons.inj hline
        exact absurd hq (by decide)
      · obtain ⟨-, hline⟩ := List.cons.inj hline
        obtain ⟨-, hline⟩ := List.cons.inj hline
        exact ⟨pre, rest, hline, fun c hc => hpre c (by simp [hc])⟩
    rw [GatewayConfig.trimDashes]
    exact ih hmarked
  | case2 line hnot =>
    rw [GatewayConfig.trimDashes]
    · exact h
    · exact hnot

/-- A marked line has the quote in its key. -/
theorem mem_key_of_marked (h : Marked q l) (hq : isQuote q = true) (hx : entry l = some x) :
    q ∈ x.1.toList := by
  have hmarked : Marked q (Chars.trim (trimDashes (Chars.trim (l.takeWhile (· != '#'))))) :=
    (((h.takeWhile hq).trim hq).trimDashes hq).trim hq
  obtain ⟨⟨k, v⟩, hcut, hx⟩ := Option.bind_eq_some_iff.mp hx
  obtain rfl := Option.some_inj.mp hx
  obtain ⟨pre, rest, hline, hpre⟩ := hmarked
  obtain ⟨hcolon, hparts⟩ := Chars.append_of_splitOnce hcut
  have hmem : q ∈ k := by
    have hnot : ':' ∉ pre := fun hc => by
      rcases hpre _ hc with h | h <;> exact absurd h (by decide)
    have hne : q ≠ ':' := by
      rcases isQuote_cases hq with rfl | rfl <;> decide
    -- the colon that ends the key stands after the quote
    rw [hline] at hparts
    rcases List.append_eq_append_iff.mp hparts with ⟨mid, rfl, hmid⟩ | ⟨mid, rfl, hmid⟩
    · rcases mid with _ | ⟨c, mid⟩
      · exact absurd (List.cons.inj hmid).1 hne
      · rw [(List.cons.inj hmid).1]
        simp
    · rcases mid with _ | ⟨c, mid⟩
      · exact absurd (List.cons.inj hmid).1.symm hne
      · rw [← (List.cons.inj hmid).1] at hnot
        simp at hnot
  show q ∈ (String.ofList (Chars.trim k)).toList
  rw [String.toList_ofList]
  exact Chars.mem_trim hmem (isWhitespace_of_isQuote hq)

/-! ## The seven settings -/

/-- The keys the guard looks at. -/
def settings : List String :=
  ["extAuthz", "host", "failureMode", "requestTimeout", "includeRequestBody", "maxRequestBytes",
    "allowPartialMessage"]

/-- No setting has a quote in it. -/
theorem notMem_settings_of_mem (hq : isQuote q = true) (h : q ∈ k.toList) : k ∉ settings := by
  intro hk
  have hnone : ∀ s ∈ settings, '"' ∉ s.toList ∧ '\'' ∉ s.toList := by decide
  obtain ⟨hdouble, hsingle⟩ := hnone k hk
  rcases isQuote_cases hq with rfl | rfl
  · exact hdouble h
  · exact hsingle h

theorem all_append : all (e ++ e') k = all e k ++ all e' k := by
  rw [all, List.filter_append, List.map_append]
  rfl

theorem all_cons : all (x :: e) k = if x.1 = k then x.2 :: all e k else all e k := by
  unfold all
  by_cases h : x.1 = k
  · simp [h]
  · simp [h]

/-- Only the values of the seven settings count. -/
theorem Sound.congr (h : ∀ k ∈ settings, all e k = all e' k) (hs : Sound checks listen e) :
    Sound checks listen e' := by
  simp only [settings, List.forall_mem_cons] at h
  obtain ⟨hext, hhost, hmode, htimeout, hbody, hmax, hpartial, -⟩ := h
  exact {
    extAuthz := hext ▸ hs.extAuthz
    host := hhost ▸ hs.host
    failureMode := hmode ▸ hs.failureMode
    requestTimeout := htimeout ▸ hs.requestTimeout
    includeRequestBody := hbody ▸ hs.includeRequestBody
    maxRequestBytes := hmax ▸ hs.maxRequestBytes
    allowPartialMessage := hpartial ▸ hs.allowPartialMessage }

/-- Sound entries have each setting once. -/
theorem Sound.length_all (h : Sound checks listen e) (hk : k ∈ settings) :
    (all e k).length = 1 := by
  simp only [settings, List.mem_cons, List.not_mem_nil, or_false] at hk
  rcases hk with rfl | rfl | rfl | rfl | rfl | rfl | rfl
  · exact h.extAuthz
  · rw [h.host]; rfl
  · rw [h.failureMode]; rfl
  · obtain ⟨t, ht, -⟩ := h.requestTimeout
    rw [ht]; rfl
  · exact h.includeRequestBody
  · obtain ⟨max, hmax, -⟩ := h.maxRequestBytes
    rw [hmax]; rfl
  · rw [h.allowPartialMessage]; rfl

/-- An entry for none of the settings changes nothing. -/
theorem sound_insert_iff (hx : x.1 ∉ settings) :
    Sound checks listen (e ++ x :: e') ↔ Sound checks listen (e ++ e') := by
  have hall : ∀ k ∈ settings, all (e ++ x :: e') k = all (e ++ e') k := fun k hk => by
    rw [all_append, all_append, all_cons, if_neg fun h : x.1 = k => hx (h ▸ hk)]
  exact ⟨Sound.congr hall, Sound.congr fun k hk => (hall k hk).symm⟩

/-- A second entry for a setting is too many. -/
theorem not_sound_insert (h : Sound checks listen (e ++ e')) (hx : x.1 ∈ settings) :
    ¬ Sound checks listen (e ++ x :: e') := by
  intro h'
  have hone := h.length_all hx
  have htwo := h'.length_all hx
  rw [all_append, List.length_append] at hone htwo
  rw [all_cons, if_pos rfl, List.length_cons] at htwo
  omega

/-! ## Quoting the key of a line -/

/-- The text with some lines before and after a line. -/
abbrev around (before : List (List Char)) (line : List Char) (after : List (List Char)) : String :=
  textOf (before ++ line :: after)

theorem entries_around (hbefore : ∀ line ∈ before, '\n' ∉ line) (hline : '\n' ∉ line)
    (hafter : ∀ line ∈ after, '\n' ∉ line) :
    entries (around before line after) =
      before.filterMap entry ++ ((entry line).toList ++ after.filterMap entry) := by
  rw [entries_textOf (by simp)]
  · rw [List.filterMap_append, List.filterMap_cons]
    cases entry line <;> rfl
  · intro l hl
    rcases List.mem_append.mp hl with hl | hl
    · exact hbefore l hl
    · rcases List.mem_cons.mp hl with rfl | hl
      · exact hline
      · exact hafter l hl

/-- A brace stands in the text if it stands in one of the lines; quoting a key makes none. -/
theorem brace_quoteKey (h : KeyLine line pre key rest) (hq : isQuote q = true) :
    '{' ∈ (around before (quoteKey q pre key rest) after).toList ↔
      '{' ∈ (around before line after).toList := by
  have hne : '{' ≠ q := by
    rcases isQuote_cases hq with rfl | rfl <;> decide
  have hmem : '{' ∈ quoteKey q pre key rest ↔ '{' ∈ line := by
    rw [h.parts, quoteKey]
    simp [hne]
  rw [mem_textOf (by decide), mem_textOf (by decide)]
  simp only [List.mem_append, List.mem_cons, or_and_right, exists_or, exists_eq_left, hmem]

/-- A line whose key is quoted sets nothing. -/
theorem quoteKey_sets_nothing (h : KeyLine line pre key rest) (hq : isQuote q = true)
    (hx : entry (quoteKey q pre key rest) = some x) : x.1 ∉ settings := by
  refine notMem_settings_of_mem hq (mem_key_of_marked ⟨pre, key ++ q :: rest, ?_, h.pre⟩ hq hx)
  rw [quoteKey, List.append_assoc]
  rfl

/-- Where the other lines are in order, a line that sets one of them again is refused. -/
theorem refused_of_duplicate (hentries : entries text = e ++ x :: e')
    (hsound : Sound checks listen (e ++ e')) (hx : x.1 ∈ settings) :
    ∃ why, checkGatewayConfig checks text listen = .error (.refuse why) := by
  rcases hresult : checkGatewayConfig checks text listen with ⟨why | _⟩ | ⟨⟩
  · exact ⟨why, rfl⟩
  · -- the timeout is either set twice, or is the one that is in order
    obtain ⟨-, -, -, -, t, ht, hparse⟩ := checkGatewayConfig_overflow.mp hresult
    obtain ⟨t', ht', ms, hms, -⟩ := hsound.requestTimeout
    rw [hentries, all_append, all_cons] at ht
    rw [all_append] at ht'
    split_ifs at ht with hkey
    · have hlen := congrArg List.length ht
      have hlen' := congrArg List.length ht'
      simp only [List.length_append, List.length_cons, List.length_nil] at hlen hlen'
      omega
    · rw [ht'] at ht
      obtain rfl := (List.cons.inj ht).1
      rw [hms] at hparse
      cases hparse
  · rw [checkGatewayConfig_ok, hentries] at hresult
    exact absurd hresult.2 (not_sound_insert hsound hx)

/-- With the key of a line quoted, a text is accepted exactly if the other lines are in order. -/
theorem quoted_ok_iff (hbefore : ∀ l ∈ before, '\n' ∉ l) (hafter : ∀ l ∈ after, '\n' ∉ l)
    (hline : KeyLine line pre key rest) (hq : isQuote q = true) :
    checkGatewayConfig checks (around before (quoteKey q pre key rest) after) listen = .ok () ↔
      '{' ∉ (around before line after).toList ∧
        Sound checks listen (before.filterMap entry ++ after.filterMap entry) := by
  have hquoted : '\n' ∉ quoteKey q pre key rest := by
    have hnewline := hline.newline
    rw [hline.parts] at hnewline
    have hne : '\n' ≠ q := by
      rcases isQuote_cases hq with rfl | rfl <;> decide
    rw [quoteKey]
    simp_all
  rw [checkGatewayConfig_ok, brace_quoteKey hline hq, entries_around hbefore hquoted hafter]
  rcases hx : entry (quoteKey q pre key rest) with _ | x
  · rfl
  · exact and_congr_right fun _ => sound_insert_iff (quoteKey_sets_nothing hline hq hx)

end GatewayConfig

open GatewayConfig

/-- **Quoting a key makes a configuration accepted that was refused** exactly where there is no
inline mapping, the line sets one of the seven settings, and the other lines set each of them as
they have to. -/
theorem quoting_accepts_iff (checks : Bool) (listen : String) (before after : List (List Char))
    (line pre key rest : List Char) (q : Char) (hbefore : ∀ l ∈ before, '\n' ∉ l)
    (hafter : ∀ l ∈ after, '\n' ∉ l) (hline : KeyLine line pre key rest) (hq : isQuote q = true) :
    ((∃ why, checkGatewayConfig checks (around before line after) listen = .error (.refuse why)) →
      checkGatewayConfig checks (around before (quoteKey q pre key rest) after) listen ≠ .ok ()) ↔
    ¬ ('{' ∉ (around before line after).toList ∧ (∃ x, entry line = some x ∧ x.1 ∈ settings) ∧
      Sound checks listen (before.filterMap entry ++ after.filterMap entry)) := by
  have hentries := entries_around hbefore hline.newline hafter
  constructor
  · rintro h ⟨hbrace, ⟨x, hx, hsetting⟩, hsound⟩
    rw [hx] at hentries
    have haccepted := (quoted_ok_iff hbefore hafter hline hq).mpr ⟨hbrace, hsound⟩
    exact h (refused_of_duplicate hentries hsound hsetting) haccepted
  · rintro h ⟨why, hrefused⟩ haccept
    obtain ⟨hbrace, hsound⟩ := (quoted_ok_iff hbefore hafter hline hq).mp haccept
    refine h ⟨hbrace, by_contra fun hnone => ?_, hsound⟩
    -- a line that sets nothing cannot have been the reason
    have hok : checkGatewayConfig checks (around before line after) listen = .ok () := by
      rw [checkGatewayConfig_ok, hentries]
      refine ⟨hbrace, ?_⟩
      rcases hx : entry line with _ | x
      · exact hsound
      · exact (sound_insert_iff fun hsetting => hnone ⟨x, hx, hsetting⟩).mpr hsound
    rw [hok] at hrefused
    cases hrefused

namespace SecondHost

/-- The settings of a configuration that is accepted. -/
def before : List (List Char) :=
  ["binds:", "- port: 49317", "  listeners:", "  - policies:", "      extAuthz:",
    "        host: 127.0.0.1:49318", "        failureMode: deny", "        includeRequestBody:",
    "          maxRequestBytes: 1048576", "          allowPartialMessage: false",
    "        policies:", "          http:", "            requestTimeout: 5s", "    routes:",
    "    - backends:"].map String.toList

/-- A second host. -/
def line : List Char := "      - host: 10.0.0.1:80".toList

def listen : String := "127.0.0.1:49318"

theorem keyLine : KeyLine line "      - ".toList "host".toList ": 10.0.0.1:80".toList where
  newline := by decide
  parts := rfl
  pre := by
    have hall : "      - ".toList.all (fun c => Text.isWhitespace c || c == '-') = true := by decide
    simpa using hall
  key := by decide
  rest := ⟨[], " 10.0.0.1:80".toList, List.forall_mem_nil _, rfl⟩

theorem newline_notMem : ∀ l ∈ before, '\n' ∉ l := by decide

theorem brace_notMem : '{' ∉ (around before line []).toList :=
  notMem_textOf (by decide) (by decide)

theorem entries_before : before.filterMap entry =
    [("binds", ""), ("port", "49317"), ("listeners", ""), ("policies", ""), ("extAuthz", ""),
      ("host", "127.0.0.1:49318"), ("failureMode", "deny"), ("includeRequestBody", ""),
      ("maxRequestBytes", "1048576"), ("allowPartialMessage", "false"), ("policies", ""),
      ("http", ""), ("requestTimeout", "5s"), ("routes", ""), ("backends", "")] := by
  decide

theorem entry_line : entry line = some ("host", "10.0.0.1:80") := by decide

/-- The configuration without the line. -/
theorem sound : Sound true listen (before.filterMap entry ++ [].filterMap entry) := by
  rw [entries_before]
  exact {
    extAuthz := by decide
    host := by decide
    failureMode := by decide
    requestTimeout := ⟨"5s", by decide, 5000, by decide, by decide⟩
    includeRequestBody := by decide
    maxRequestBytes := ⟨"1048576", by decide, 1048576, by decide, by decide, by decide⟩
    allowPartialMessage := by decide }

theorem refused :
    ∃ why, checkGatewayConfig true (around before line []) listen = .error (.refuse why) := by
  have hentries : entries (around before line []) =
      before.filterMap entry ++ ((entry line).toList ++ [].filterMap entry) :=
    entries_around newline_notMem keyLine.newline (List.forall_mem_nil _)
  rw [entry_line] at hentries
  exact refused_of_duplicate hentries sound (by decide)

/-- The line with its key quoted. -/
def quoted : List Char := quoteKey '"' "      - ".toList "host".toList ": 10.0.0.1:80".toList

theorem accepted : checkGatewayConfig true (around before quoted []) listen = .ok () :=
  (quoted_ok_iff newline_notMem (List.forall_mem_nil _) keyLine rfl).mpr ⟨brace_notMem, sound⟩

end SecondHost

/-- A second host is refused; with its key quoted, it is not seen. -/
theorem secondHost_hidden :
    (∃ why, checkGatewayConfig true
      (around SecondHost.before SecondHost.line []) SecondHost.listen =
      .error (.refuse why)) ∧
    checkGatewayConfig true (around SecondHost.before SecondHost.quoted []) SecondHost.listen =
      .ok () :=
  ⟨SecondHost.refused, SecondHost.accepted⟩

/-- So that line sets a setting, and the others set each of them. -/
theorem quoting_accepts_iff_secondHost :
    Sound true SecondHost.listen (SecondHost.before.filterMap entry ++ [].filterMap entry) :=
  (not_not.mp (mt (quoting_accepts_iff true SecondHost.listen SecondHost.before [] _ _ _ _ '"'
    SecondHost.newline_notMem (by simp) SecondHost.keyLine rfl).mpr
    fun h => h SecondHost.refused SecondHost.accepted)).2.2

end TactiqAttest.Service
