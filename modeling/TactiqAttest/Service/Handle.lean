import TactiqAttest.Service.Answers
import TactiqAttest.Service.Http
import TactiqAttest.Service.Recover

/-!
# One question of the gateway, answered

`handle` reads a request, asks `admit`, and writes one response.  The gateway takes a 2xx answer for
a permission and everything else, no answer included, for a refusal.  So what matters is that 200 is
written in one case only, and that whatever is handed out as a receipt instead has been checked.

Nothing is assumed of the TPM here, nor of the files: every call may return anything, or fail.

* `readRequest`: the loop that reads a request from the connection;
* `FailsClosed`: what must hold of `admit`, `status` and `handle`, and `fails_closed` that it does.
-/

namespace TactiqAttest.Service

open Envelope Stop Prog

variable {C : Crypto}

/-! ## Reading a request -/

/-- The text of an error of the parser.  `debug` is what `{:?}` makes of a string. -/
def HttpError.text (debug : Bytes → String) : HttpError → String
  | .headOver => s!"request head over {headMax} bytes"
  | .notUtf8 => "request head is not UTF-8"
  | .requestLine line => "bad request line " ++ debug line
  | .version v => "unsupported version " ++ debug v
  | .method m => "bad method " ++ debug m
  | .headerLine line => "bad header line " ++ debug line
  | .headerName name => "bad header name " ++ debug name
  | .transferEncoding => "chunked or other transfer encodings are not accepted"
  | .contentLength value => "bad content-length " ++ debug value
  | .conflictingLengths => "conflicting content-length headers"
  | .bodyOver n => s!"body of {n} bytes over {bodyMax}"

/-- What one round of the loop of `read_request` gets from the connection. -/
inductive Incoming
  /-- The deadline has passed. -/
  | deadline
  /-- The connection failed, with the text of the error. -/
  | failed (text : String)
  /-- Some bytes; none if the other side has closed the connection. -/
  | bytes (chunk : Bytes)

/-- `http::read_request`, with the bytes read so far and what the connection has in store; when
there is nothing more in store, it is closed. -/
def readRequest (debug : Bytes → String) (buf : Bytes) (incoming : List Incoming) :
    Except String Request :=
  match parse buf with
  | .error e => .error (e.text debug)
  | .ok (some (request, used)) =>
    if used ≠ buf.length then .error s!"{buf.length - used} bytes after the request"
    else .ok request
  | .ok none =>
    match incoming with
    | [] => .error "connection closed before the request was complete"
    | .deadline :: _ => .error "request not complete within the deadline"
    | .failed text :: _ => .error text
    | .bytes chunk :: incoming =>
      if chunk = [] then .error "connection closed before the request was complete"
      else if (buf ++ chunk).length > headMax + bodyMax + 4 then .error "request too large"
      else readRequest debug (buf ++ chunk) incoming

/-! ## Writing the response -/

structure Response where
  code : ℕ
  contentType : String
  body : Bytes

/-- The bytes of a text. -/
def utf8 (s : String) : Bytes := s.toUTF8.data.toList

/-- The reason phrase of `http::respond`. -/
def reason (code : ℕ) : String :=
  if code = 200 then "OK"
  else if code = 400 then "Bad Request"
  else if code = 403 then "Forbidden"
  else "Service Unavailable"

/-- The status line of `http::respond`. -/
def statusLine (code : ℕ) : Bytes := utf8 s!"HTTP/1.1 {code} {reason code}\r\n"

/-- `http::respond`: the bytes of a response. -/
def respond (r : Response) : Bytes :=
  statusLine r.code ++
    utf8 (s!"Content-Type: {r.contentType}\r\nContent-Length: {r.body.length}\r\n" ++
      "Connection: close\r\n\r\n") ++ r.body

/-- What `handle` makes of the answer of `admit`. -/
def answer : Except String Admission → Response
  | .ok .allow => ⟨200, "text/plain", []⟩
  | .ok (.refuse receipt) => ⟨403, "application/octet-stream", receipt⟩
  | .error _ => ⟨503, "text/plain", Text.ascii "stop state unavailable"⟩

/-- `handle`, up to the response it writes. -/
def handle (debug : Bytes → String) (incoming : List Incoming) (ctx : Ctx C) :
    Prog Op Reply Response :=
  match readRequest debug [] incoming with
  | .error e => return ⟨400, "text/plain", utf8 e⟩
  | .ok req => do
    let d := requestDigest C req.method req.path req.body
    let admission ← (admitCall ctx d).run
    return answer admission

/-! ## What is asked of the TPM -/

/-- A call that has the TPM sign. -/
def IsStatement : Op → Prop
  | .certify _ => True
  | .quote _ _ => True
  | _ => False

/-- A call that has the TPM quote. -/
def IsQuote : Op → Prop
  | .quote _ _ => True
  | _ => False

/-- The calls of a question up to its quote: the counter, the release, the certify, the PCRs.  The
certify has passed the check, for the record of what was read. -/
def ReachesQuote (ctx : Ctx C) (nonce : Bytes) (recordAt : UInt64 → Gate → StopRecord)
    (before : List (Exchange Op Reply)) : Prop :=
  ∃ counter g gateCalls attest sig pcrState,
    before = ⟨.readCounter, .ok counter⟩ :: (gateCalls ++
      [⟨.certify (certifyQualifying C (recordAt counter g).bytes nonce), .ok (attest, sig)⟩,
        ⟨.pcrRead ctx.pcrSpec, .ok pcrState⟩]) ∧
    (gate ctx.lift counter).run.Yields gateCalls (.ok g) ∧
    checkCounterCertify attest (certifyQualifying C (recordAt counter g).bytes nonce)
      ctx.stopIndexName counter = .ok ()

/-- Every quote in the history is asked for only then. -/
def QuotesChecked (ctx : Ctx C) (nonce : Bytes) (recordAt : UInt64 → Gate → StopRecord)
    (cs : List (Exchange Op Reply)) : Prop :=
  ∀ before qualifying spec r after, cs = before ++ ⟨.quote qualifying spec, r⟩ :: after →
    ReachesQuote ctx nonce recordAt before

/-- The bytes are a receipt that carries this record, with a message at its counter value that
commits to the bundle, and in the bundle one certify, which passes the check for the record. -/
def CheckedReceipt (ctx : Ctx C) (rec : StopRecord) (nonce b : Bytes) : Prop :=
  recordOf b = .ok rec ∧
    ∃ r m ss s c, Receipt.parse b = .ok r ∧ AttestationMessage.parse r.msg = .ok m ∧
      m.counter = rec.stopEpoch ∧ m.evidenceHash = evidenceDigest C r.bundle ∧
      parseBundle r.bundle = .ok ss ∧ ss.filter (·.tag = tagTpmNvCertify) = [s] ∧
      NvCertify.parse s.body = .ok c ∧
      checkCounterCertify c.attest (certifyQualifying C rec.bytes nonce) ctx.stopIndexName
        rec.stopEpoch = .ok ()

/-- The service fails closed: `admit`, `status` and `handle`, against any TPM and any release. -/
structure FailsClosed (ctx : Ctx C) : Prop where
  /-- A call is let through exactly at an even counter with a release that passes for it. -/
  allow : ∀ d cs, (admitCall ctx d).run.Yields cs (.ok .allow) ↔
    ∃ counter rest record sig, cs = ⟨.readCounter, .ok counter⟩ :: rest ∧
      counter.toNat % 2 = 0 ∧ ctx.lift.release.run.Yields rest (.ok (some (record, sig))) ∧
      Release.check C ctx.lift.operatorKey record sig ctx.lift.deviceId counter = .ok ()
  /-- The TPM is then asked to sign nothing. -/
  quiet : ∀ d cs, (admitCall ctx d).run.Yields cs (.ok .allow) → ∀ x ∈ cs, ¬ IsStatement x.1
  /-- 200 is the answer exactly to a request that parses and is let through. -/
  ok : ∀ debug incoming cs resp, (handle debug incoming ctx).Yields cs resp →
    (resp.code = 200 ↔ ∃ req, readRequest debug [] incoming = .ok req ∧
      (admitCall ctx (requestDigest C req.method req.path req.body)).run.Yields cs (.ok .allow))
  /-- That is what the status line says. -/
  written : ∀ debug incoming cs resp, (handle debug incoming ctx).Yields cs resp →
    (utf8 "HTTP/1.1 200 " <+: respond resp ↔ resp.code = 200)
  /-- Every other answer is a refusal. -/
  refusal : ∀ debug incoming cs resp, (handle debug incoming ctx).Yields cs resp →
    resp.code ≠ 200 → ¬ (200 ≤ resp.code ∧ resp.code < 300)
  /-- No quote before the certify has passed. -/
  admitQuotes : ∀ d cs p, (admitCall ctx d).run.After cs p →
    QuotesChecked ctx [] (fun counter _ => refusalRecord ctx counter d) cs
  statusQuotes : ∀ nonce cs p, (status ctx nonce).run.After cs p →
    QuotesChecked ctx nonce (statusRecord ctx) cs
  /-- The body of a refusal is a checked receipt for that request, at the counter value read. -/
  admitReceipt : ∀ d cs b, (admitCall ctx d).run.Yields cs (.ok (.refuse b)) →
    ∃ counter rest, cs = ⟨.readCounter, .ok counter⟩ :: rest ∧
      CheckedReceipt ctx (refusalRecord ctx counter d) [] b
  /-- A status answer is a checked receipt for the state found at the counter value read, which is
  not running if the value is odd. -/
  statusReceipt : ∀ nonce cs b, (status ctx nonce).run.Yields cs (.ok b) →
    ∃ counter g gateCalls rest, cs = ⟨.readCounter, .ok counter⟩ :: (gateCalls ++ rest) ∧
      (gate ctx.lift counter).run.Yields gateCalls (.ok g) ∧
      (counter.toNat % 2 = 1 → g.state ≠ .running) ∧
      CheckedReceipt ctx (statusRecord ctx counter g) nonce b

/-! ## The calls of a question -/

section Calls

variable {ctx : Ctx C} {rec : StopRecord} {nonce : Bytes} {cs : List (Exchange Op Reply)}

/-- Signing asks for no quote, or for one, as the third call, after a certify that has passed. -/
theorem calls_of_sign {out : Except String Bytes} (h : (sign ctx rec nonce).run.Yields cs out) :
    (∀ x ∈ cs, ¬ IsQuote x.1) ∨ ∃ attest sig pcrState qualifying r,
      cs = [⟨.certify (certifyQualifying C rec.bytes nonce), .ok (attest, sig)⟩,
        ⟨.pcrRead ctx.pcrSpec, .ok pcrState⟩, ⟨.quote qualifying ctx.pcrSpec, r⟩] ∧
      checkCounterCertify attest (certifyQualifying C rec.bytes nonce) ctx.stopIndexName
        rec.stopEpoch = .ok () := by
  rcases yields_ofResult_tryBind.mp h with ⟨e, -, rfl, -⟩ | ⟨body, hbody, h₁⟩
  · exact .inl (by simp)
  obtain ⟨-, rfl⟩ := StopRecord.encode_ok.mp hbody
  rcases (yields_exchange_tryBind yields_certify).mp h₁ with
    ⟨e, rfl, -⟩ | ⟨⟨attest, sig⟩, cs₁, rfl, h₂⟩
  · exact .inl (by simp [IsQuote])
  rcases yields_ofResult_tryBind.mp h₂ with ⟨e, -, rfl, -⟩ | ⟨⟨⟩, hchecked, h₃⟩
  · exact .inl (by simp [IsQuote])
  rcases yields_ofResult_tryBind.mp h₃ with ⟨e, -, rfl, -⟩ | ⟨cert, -, h₄⟩
  · exact .inl (by simp [IsQuote])
  rcases yields_ofResult_tryBind.mp h₄ with ⟨e, -, rfl, -⟩ | ⟨bundle, -, h₅⟩
  · exact .inl (by simp [IsQuote])
  rcases (yields_exchange_tryBind yields_pcrRead).mp h₅ with ⟨e, rfl, -⟩ | ⟨pcrState, cs₂, rfl, h₆⟩
  · exact .inl (by simp [IsQuote])
  rcases yields_ofResult_tryBind.mp h₆ with ⟨e, -, rfl, -⟩ | ⟨-, -, h₇⟩
  · exact .inl (by simp [IsQuote])
  rcases (yields_exchange_tryBind yields_quote).mp h₇ with ⟨e, rfl, -⟩ | ⟨⟨q, qsig⟩, cs₃, rfl, h₈⟩
  · exact .inr ⟨attest, sig, pcrState, _, _, rfl, hchecked⟩
  · obtain ⟨rfl, -⟩ := yields_ofResult.mp h₈
    exact .inr ⟨attest, sig, pcrState, _, _, rfl, hchecked⟩

theorem quotesChecked_of_none {recordAt : UInt64 → Gate → StopRecord}
    (h : ∀ x ∈ cs, ¬ IsQuote x.1) : QuotesChecked ctx nonce recordAt cs := by
  intro before qualifying spec r after hcs
  refine absurd trivial (h ⟨.quote qualifying spec, r⟩ ?_)
  rw [hcs]
  exact List.mem_append_right _ List.mem_cons_self

/-- The only quote of a history that ends with it comes after all the rest. -/
theorem eq_of_last_quote {earlier before after : List (Exchange Op Reply)} {x y : Exchange Op Reply}
    (hearlier : ∀ z ∈ earlier, ¬ IsQuote z.1) (hy : IsQuote y.1)
    (h : earlier ++ [x] = before ++ y :: after) : before = earlier := by
  rcases List.append_eq_append_iff.mp h with ⟨m, hbefore, hm⟩ | ⟨m, hsplit, hm⟩
  · rcases m with _ | ⟨z, m⟩
    · rw [hbefore, List.append_nil]
    · simp at hm
  · rcases m with _ | ⟨z, m⟩
    · rw [hsplit, List.append_nil]
    · obtain ⟨rfl, -⟩ := List.cons.inj hm
      refine absurd hy (hearlier y ?_)
      rw [hsplit]
      exact List.mem_append_right _ List.mem_cons_self

/-- The common shape of the questions: read the counter, decide the gate, and sign the record of
both, if anything. -/
theorem quotesChecked_of_yields {α : Type} {recordAt : UInt64 → Gate → StopRecord}
    {k : UInt64 → Gate → Stop α} {out : Except String α}
    (hstore : ctx.lift.release.run.Only IsFile)
    (hepoch : ∀ counter g, (recordAt counter g).stopEpoch = counter)
    (hk : ∀ {counter g ss o}, (k counter g).run.Yields ss o →
      ss = [] ∨ ∃ o', (sign ctx (recordAt counter g) nonce).run.Yields ss o')
    (h : (do
      let counter ← readCounter
      let g ← gate ctx.lift counter
      k counter g : Stop α).run.Yields cs out) : QuotesChecked ctx nonce recordAt cs := by
  have hfile : ∀ {op}, IsFile op → ¬ IsQuote op := by
    rintro op ⟨path, n, rfl⟩ hquote
    exact hquote
  rcases (yields_exchange_tryBind yields_readCounter).mp h with
    ⟨e, rfl, -⟩ | ⟨counter, cs₁, rfl, h₁⟩
  · exact quotesChecked_of_none (by simp [IsQuote])
  rcases yields_tryBind.mp h₁ with ⟨e, -, hgate⟩ | ⟨gateCalls, ss, g, rfl, hgate, hsign⟩
  · refine quotesChecked_of_none (List.forall_mem_cons.mpr ⟨id, fun x hx => ?_⟩)
    exact hfile ((gate_only hstore counter).of_after hgate x hx)
  have hgateCalls : ∀ x ∈ gateCalls, ¬ IsQuote x.1 := fun x hx =>
    hfile ((gate_only hstore counter).of_after hgate x hx)
  have hnone : (∀ x ∈ ss, ¬ IsQuote x.1) →
      QuotesChecked ctx nonce recordAt (⟨.readCounter, .ok counter⟩ :: (gateCalls ++ ss)) := by
    intro hss
    exact quotesChecked_of_none (List.forall_mem_cons.mpr
      ⟨id, List.forall_mem_append.mpr ⟨hgateCalls, hss⟩⟩)
  rcases hk hsign with rfl | ⟨o', ho'⟩
  · exact hnone (by simp)
  rcases calls_of_sign ho' with hss | ⟨attest, sig, pcrState, qualifying, r, rfl, hchecked⟩
  · exact hnone hss
  · intro before qualifying' spec r' after hcs
    rw [hepoch] at hchecked
    have hlast : (⟨.readCounter, .ok counter⟩ :: (gateCalls ++
        [⟨.certify (certifyQualifying C (recordAt counter g).bytes nonce), .ok (attest, sig)⟩,
          ⟨.pcrRead ctx.pcrSpec, .ok pcrState⟩])) ++ [⟨.quote qualifying ctx.pcrSpec, r⟩] =
        before ++ ⟨.quote qualifying' spec, r'⟩ :: after := by
      rw [← hcs]
      simp
    refine ⟨counter, g, gateCalls, attest, sig, pcrState, ?_, hgate, hchecked⟩
    have hquote : IsQuote (⟨.quote qualifying' spec, r'⟩ : Exchange Op Reply).1 := trivial
    refine eq_of_last_quote (List.forall_mem_cons.mpr ⟨id, ?_⟩) hquote hlast
    exact List.forall_mem_append.mpr ⟨hgateCalls, by simp [IsQuote]⟩

/-- What is checked of a whole history is checked of its beginning. -/
theorem QuotesChecked.of_append {recordAt : UInt64 → Gate → StopRecord}
    {cs' : List (Exchange Op Reply)} (h : QuotesChecked ctx nonce recordAt (cs ++ cs')) :
    QuotesChecked ctx nonce recordAt cs := by
  intro before qualifying spec r after hcs
  exact h before qualifying spec r (after ++ cs') (by rw [hcs]; simp)

theorem quotesChecked_of_admit {d : List.Vector UInt8 32}
    {p : Prog Op Reply (Except String Admission)}
    (hstore : ctx.lift.release.run.Only IsFile) (h : (admitCall ctx d).run.After cs p) :
    QuotesChecked ctx [] (fun counter _ => refusalRecord ctx counter d) cs := by
  obtain ⟨cs', out, hout⟩ := h.exists_yields
  refine QuotesChecked.of_append (quotesChecked_of_yields hstore (fun _ _ => rfl) ?_ hout)
  intro counter g ss o hat
  have hsigned : (do
      let receipt ← sign ctx (refusalRecord ctx counter d) []
      return .refuse receipt : Stop Admission).run.Yields ss o →
        ∃ o', (sign ctx (refusalRecord ctx counter d) []).run.Yields ss o' := by
    intro h
    rcases yields_tryBind.mp h with ⟨e, -, he⟩ | ⟨ss₁, ss₂, receipt, rfl, hsign, hret⟩
    · exact ⟨_, he⟩
    · obtain ⟨rfl, -⟩ := yields_tryPure.mp hret
      rw [List.append_nil]
      exact ⟨_, hsign⟩
  cases g with
  | opened => exact .inl (yields_tryPure.mp hat).1
  | stopped => exact .inr (hsigned hat)
  | unreleased why => exact .inr (hsigned hat)

theorem quotesChecked_of_status {p : Prog Op Reply (Except String Bytes)}
    (hstore : ctx.lift.release.run.Only IsFile) (h : (status ctx nonce).run.After cs p) :
    QuotesChecked ctx nonce (statusRecord ctx) cs := by
  obtain ⟨cs', out, hout⟩ := h.exists_yields
  refine QuotesChecked.of_append (?_ : QuotesChecked ctx nonce (statusRecord ctx) (cs ++ cs'))
  rcases yields_ofResult_tryBind.mp hout with ⟨e, -, hnil, -⟩ | ⟨⟨⟩, -, hrest⟩
  · rw [hnil]
    exact quotesChecked_of_none (by simp)
  · exact quotesChecked_of_yields hstore (fun _ _ => rfl) (fun hsign => .inr ⟨_, hsign⟩) hrest

/-! ## What is handed out -/

/-- The sections of a receipt with a given tag. -/
theorem filter_receiptSections (body cert : Bytes) (nonce : Bytes) :
    (receiptSections body cert nonce).filter (·.tag = tagStopState) = [⟨tagStopState, body⟩] ∧
      (receiptSections body cert nonce).filter (·.tag = tagTpmNvCertify) =
        [⟨tagTpmNvCertify, cert⟩] := by
  have hcert : tagTpmNvCertify ≠ tagStopState := by decide
  have hnonce : tagVerifierNonce ≠ tagStopState ∧ tagVerifierNonce ≠ tagTpmNvCertify := by decide
  unfold receiptSections
  by_cases h : nonce = []
  · simp [h, hcert, hcert.symm]
  · simp [h, hcert, hcert.symm, hnonce.1, hnonce.2]

/-- A receipt with one stop record carries what that parses to. -/
theorem recordOf_ok {b : Bytes} {r : Receipt} {ss : List Section} {s : Section}
    (hr : Receipt.parse b = .ok r) (hss : parseBundle r.bundle = .ok ss)
    (hs : ss.filter (·.tag = tagStopState) = [s]) (hrec : StopRecord.parse s.body = .ok rec) :
    recordOf b = .ok rec := by
  unfold recordOf
  refine Except.bind_eq_ok.mpr ⟨r, hr, Except.bind_eq_ok.mpr ⟨ss, hss, ?_⟩⟩
  rw [hs]
  exact hrec

/-- **What `sign` returns has been checked.** -/
theorem checkedReceipt_of_sign {b : Bytes} (h : (sign ctx rec nonce).run.Yields cs (.ok b)) :
    CheckedReceipt ctx rec nonce b := by
  obtain ⟨cert, pcrState, r, -, hr, rfl⟩ := yields_sign_ok.mp h
  have hparse : Receipt.parse r.bytes = .ok r := Receipt.parse_ok.mpr ⟨hr.receipt, rfl⟩
  have hbundle := parseBundle_of_buildBundle hr.bundle
  obtain ⟨hrecord, hcert⟩ := filter_receiptSections rec.bytes cert.bytes nonce
  have hmsg : AttestationMessage.parse r.msg = .ok ⟨padDeviceId ctx.deviceId, rec.stopEpoch,
      encodePcrSelection ctx.pcrAlg ctx.pcrBitmap, C.sha256 pcrState,
      evidenceDigest C r.bundle⟩ := by
    rw [hr.msg]
    exact parse_buildCanonical C _ _ _ _ _
  have hfound : StopRecord.parse rec.bytes = .ok rec := StopRecord.parse_ok.mpr ⟨hr.record, rfl⟩
  have hrecordOf : recordOf r.bytes = .ok rec := recordOf_ok hparse hbundle hrecord hfound
  obtain ⟨⟨⟩, hchecked⟩ := hr.checked
  exact ⟨hrecordOf, r, _, _, _, cert, hparse, hmsg, rfl, rfl, hbundle, hcert,
    NvCertify.parse_ok.mpr ⟨hr.certLegal, rfl⟩, hchecked⟩

/-! ## What is written -/

/-- The response to a request that does not parse, or to the answer of `admit`. -/
theorem yields_handle {debug : Bytes → String} {incoming : List Incoming} {resp : Response} :
    (handle debug incoming ctx).Yields cs resp ↔
      (∃ e, readRequest debug [] incoming = .error e ∧ cs = [] ∧
        resp = ⟨400, "text/plain", utf8 e⟩) ∨
      ∃ req admission, readRequest debug [] incoming = .ok req ∧
        (admitCall ctx (requestDigest C req.method req.path req.body)).run.Yields cs admission ∧
        resp = answer admission := by
  unfold handle
  rcases readRequest debug [] incoming with e | req
  · refine yields_pure.trans ⟨fun ⟨hcs, hresp⟩ => .inl ⟨e, rfl, hcs, hresp.symm⟩, ?_⟩
    rintro (⟨e', he, hcs, hresp⟩ | ⟨_, _, hreq, -⟩)
    · cases he
      exact ⟨hcs, hresp.symm⟩
    · cases hreq
  · refine yields_bind.trans ⟨fun ⟨cs₁, cs₂, admission, hcs, hadmit, hret⟩ => ?_, ?_⟩
    · obtain ⟨rfl, hresp⟩ := yields_pure.mp hret
      rw [List.append_nil] at hcs
      exact .inr ⟨req, admission, rfl, hcs ▸ hadmit, hresp.symm⟩
    · rintro (⟨_, he, -⟩ | ⟨req', admission, hreq, hadmit, hresp⟩)
      · cases he
      · cases hreq
        exact ⟨cs, [], admission, (List.append_nil cs).symm, hadmit,
          yields_pure.mpr ⟨rfl, hresp.symm⟩⟩

theorem answer_code {admission : Except String Admission} :
    ((answer admission).code = 200 ↔ admission = .ok .allow) ∧
      ((answer admission).code = 200 ∨ (answer admission).code = 403 ∨
        (answer admission).code = 503) := by
  rcases admission with e | _ | receipt
  · simp [answer]
  · simp [answer]
  · simp [answer]

/-- The codes `handle` answers with. -/
theorem code_of_handle {debug : Bytes → String} {incoming : List Incoming} {resp : Response}
    (h : (handle debug incoming ctx).Yields cs resp) :
    resp.code = 200 ∨ resp.code = 400 ∨ resp.code = 403 ∨ resp.code = 503 := by
  rcases yields_handle.mp h with ⟨e, -, -, rfl⟩ | ⟨req, admission, -, -, rfl⟩
  · exact .inr (.inl rfl)
  · rcases answer_code.2 with h | h | h
    · exact .inl h
    · exact .inr (.inr (.inl h))
    · exact .inr (.inr (.inr h))

/-- The response begins as its status line does. -/
theorem isPrefix_respond {p : Bytes} {resp : Response}
    (h : p.length ≤ (statusLine resp.code).length) :
    p <+: respond resp ↔ p <+: statusLine resp.code := by
  have hline : statusLine resp.code <+: respond resp := by
    unfold respond
    rw [List.append_assoc]
    exact List.prefix_append _ _
  exact ⟨fun hp => List.prefix_of_prefix_length_le hp hline h, fun hp => hp.trans hline⟩

/-- The status line says 200 exactly for that code. -/
theorem respond_code {resp : Response}
    (h : resp.code = 200 ∨ resp.code = 400 ∨ resp.code = 403 ∨ resp.code = 503) :
    utf8 "HTTP/1.1 200 " <+: respond resp ↔ resp.code = 200 := by
  have hlines : ∀ code ∈ [200, 400, 403, 503],
      (utf8 "HTTP/1.1 200 ").length ≤ (statusLine code).length ∧
        (utf8 "HTTP/1.1 200 " <+: statusLine code ↔ code = 200) := by decide
  obtain ⟨hlen, hiff⟩ := hlines resp.code (by simpa using h)
  rw [isPrefix_respond hlen]
  exact hiff

/-- **The service fails closed.**  The release store is not the TPM: it reads files. -/
theorem fails_closed (ctx : Ctx C) (hstore : ctx.lift.release.run.Only IsFile) :
    FailsClosed ctx where
  allow d cs := by
    rw [yields_admit_allow]
    constructor
    · rintro ⟨counter, rest, hcs, hgate⟩
      obtain ⟨hstate, record, sig, hread, hcheck⟩ := yields_gate_opened.mp hgate
      exact ⟨counter, rest, record, sig, hcs, stateOf_eq_running.mp hstate, hread, hcheck⟩
    · rintro ⟨counter, rest, record, sig, hcs, heven, hread, hcheck⟩
      exact ⟨counter, rest, hcs, yields_gate_opened.mpr
        ⟨stateOf_eq_running.mpr heven, record, sig, hread, hcheck⟩⟩
  quiet d cs h x hx := by
    obtain ⟨counter, rest, rfl, hgate⟩ := yields_admit_allow.mp h
    rcases List.mem_cons.mp hx with rfl | hrest
    · exact id
    · obtain ⟨path, n, hfile⟩ := (gate_only hstore counter).of_after hgate x hrest
      rw [hfile]
      exact id
  ok debug incoming cs resp h := by
    rcases yields_handle.mp h with ⟨e, hread, -, rfl⟩ | ⟨req, admission, hread, hadmit, rfl⟩
    · refine iff_of_false (by simp) ?_
      rintro ⟨req, hreq, -⟩
      rw [hread] at hreq
      cases hreq
    · rw [answer_code.1]
      refine ⟨fun hallow => ⟨req, hread, hallow ▸ hadmit⟩, fun ⟨req', hreq, hallow⟩ => ?_⟩
      obtain rfl := Except.ok.inj (hread.symm.trans hreq)
      exact hadmit.unique hallow
  written debug incoming cs resp h := respond_code (code_of_handle h)
  refusal debug incoming cs resp h hne := by
    have hcode := code_of_handle h
    omega
  admitQuotes d cs p h := quotesChecked_of_admit hstore h
  statusQuotes nonce cs p h := quotesChecked_of_status hstore h
  admitReceipt d cs b h := by
    obtain ⟨counter, rest, hcs, hrest⟩ := (yields_call_tryBind yields_readCounter).mp h
    obtain ⟨gateCalls, ss, g, -, -, hat⟩ := yields_tryBind_ok.mp hrest
    exact ⟨counter, rest, hcs, checkedReceipt_of_sign (yields_admitAt_refuse.mp hat).2⟩
  statusReceipt nonce cs b h := by
    obtain ⟨⟨⟩, -, hquestion⟩ := yields_ofResult_bind.mp h
    obtain ⟨counter, rest, hcs, hrest⟩ := (yields_call_tryBind yields_readCounter).mp hquestion
    obtain ⟨gateCalls, ss, g, rfl, hgate, hsign⟩ := yields_tryBind_ok.mp hrest
    exact ⟨counter, g, gateCalls, ss, hcs, hgate, parity_of_gate hgate,
      checkedReceipt_of_sign hsign⟩

end Calls

/-- The context of the running call. -/
theorem deviceFour_fails_closed : FailsClosed deviceFour.ctx :=
  fails_closed deviceFour.ctx (release_files release)

end TactiqAttest.Service
