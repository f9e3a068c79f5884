import TactiqAttest.Appraise.StopInterval

/-!
# The three roles of an attestation

One attestation key signs three kinds of statement: the quote of an agent envelope, the quote of a
stop receipt, and the certify of the stop counter inside a receipt.  Nothing about a signature says
which of the three it was made for, so the verifiers have to.

A certify and a quote differ in the type field of the structure.  The two quotes differ only in what
they commit to, and there it is not the domain string alone that keeps them apart: the message of an
envelope is free, and may begin with that string.  It is the length.  A message is 93 bytes and
enters the digest of an envelope bare; the digest of a receipt is of the same 93 bytes behind a
domain string, and no string of one length is of the other.
-/

namespace TactiqAttest.Appraise

open Envelope Stop Tpm

variable {C : Crypto} {a msg rmsg : Bytes}

/-- `a` is accepted as the quote of an agent envelope with this message. -/
def EnvelopeQuote (C : Crypto) (a msg : Bytes) : Prop :=
  ∃ (e : Presented C) (auth : Authenticated),
    e.authenticate = .ok auth ∧ e.attest = some a ∧ e.msg = msg

/-- `a` is the quote of an accepted receipt with this message. -/
def ReceiptQuote (C : Crypto) (a msg : Bytes) : Prop :=
  ∃ (receipt : Bytes) (t : StopTrust C) (f : StopFinding) (r : Receipt),
    verifyStopReceipt receipt t = .ok f ∧ Receipt.parse receipt = .ok r ∧
      r.quoteAttest = a ∧ r.msg = msg

/-- `a` is the certify in the bundle of an accepted receipt. -/
def ReceiptCertify (C : Crypto) (a : Bytes) : Prop :=
  ∃ (receipt : Bytes) (t : StopTrust C) (f : StopFinding) (r : Receipt) (ss : List Section)
    (s : Section) (c : NvCertify),
    verifyStopReceipt receipt t = .ok f ∧ Receipt.parse receipt = .ok r ∧
      parseBundle r.bundle = .ok ss ∧ s ∈ ss ∧ s.tag = tagTpmNvCertify ∧
        NvCertify.parse s.body = .ok c ∧ c.attest = a

/-! ## What each role asks for -/

/-- The quote of an envelope commits to the message, of the length of a message. -/
theorem EnvelopeQuote.commits (h : EnvelopeQuote C a msg) :
    msg.length = msgLen ∧ ∃ q, Quote.parse a = .ok q ∧ q.extraData = (C.sha256 msg).toList := by
  obtain ⟨e, auth, hauth, hattest, rfl⟩ := h
  obtain ⟨m, entry, htrust, -, -, -, hrest⟩ := Presented.authenticate_ok_iff.mp hauth
  rw [hattest] at hrest
  obtain ⟨q, hq, ⟨hextra, -⟩, -⟩ := hrest
  exact ⟨(congrArg List.length htrust.1).trans m.length_bytes, q, hq, hextra⟩

/-- The parts of an accepted receipt are those of its genuine reading. -/
theorem exists_reading {receipt : Bytes} {t : StopTrust C} {f : StopFinding} {r : Receipt}
    (h : verifyStopReceipt receipt t = .ok f) (hr : Receipt.parse receipt = .ok r) :
    ∃ p : Reading, p.Genuine t ∧ p.receipt = r := by
  obtain ⟨p, hp, rfl, -⟩ := verifyStopReceipt_ok.mp h
  have hparse : Receipt.parse p.receipt.bytes = .ok p.receipt :=
    Receipt.parse_ok.mpr ⟨hp.receipt, rfl⟩
  exact ⟨p, hp, Except.ok.inj (hparse.symm.trans hr)⟩

/-- The quote of a receipt commits to the message behind the domain string. -/
theorem ReceiptQuote.commits (h : ReceiptQuote C a msg) :
    msg.length = msgLen ∧
      ∃ q, Quote.parse a = .ok q ∧ q.extraData = (stopQuoteQualifying C msg).toList := by
  obtain ⟨receipt, t, f, r, hok, hr, rfl, rfl⟩ := h
  obtain ⟨p, hp, rfl⟩ := exists_reading hok hr
  have hlen : p.receipt.msg.length = msgLen := by
    rw [hp.msg]
    exact AttestationMessage.length_bytes _
  exact ⟨hlen, p.quote, hp.quote, hp.quoteBound⟩

/-- The certify of a receipt is one. -/
theorem ReceiptCertify.exists_info (h : ReceiptCertify C a) :
    ∃ i, parseNvCertifyInfo a = .ok i := by
  obtain ⟨receipt, t, f, r, ss, s, c, hok, hr, hss, hs, htag, hc, rfl⟩ := h
  obtain ⟨p, hp, rfl⟩ := exists_reading hok hr
  obtain ⟨ss', hss', hperm⟩ := hp.bundle
  obtain rfl : ss = ss' := Except.ok.inj (hss.symm.trans hss')
  -- the only section of the receipt with this tag holds the certify that was checked
  have hbody : s.body = p.cert.bytes := by
    have hmem := hperm.mem_iff.mp hs
    rw [← p.sections_slots, Slots.mem_sections] at hmem
    obtain ⟨k, hk, hsome⟩ := hmem
    obtain rfl : k = .tpmNvCertify := Slot.tag_injective (hk.trans htag)
    exact (Option.some.inj hsome).symm
  rw [hbody] at hc
  have hparse : NvCertify.parse p.cert.bytes = .ok p.cert := NvCertify.parse_ok.mpr ⟨hp.cert, rfl⟩
  obtain rfl := Except.ok.inj (hparse.symm.trans hc)
  exact ⟨p.info, hp.info⟩

/-! ## No two at once -/

/-- Nothing parses both as a quote and as a certify. -/
theorem not_info_of_quote {q : Quote} {i : NvCertifyInfo} (hq : Quote.parse a = .ok q) :
    parseNvCertifyInfo a ≠ .ok i := by
  obtain ⟨wire, rfl⟩ := Quote.parse_ok.mp hq
  intro hi
  obtain ⟨fw, wire', hnv⟩ := Attestation.nv_of_parse (a := .quote q wire) hi
  cases hnv

/-- A message and a message behind the domain string are two strings. -/
theorem ne_stopQuotePreimage (hmsg : msg.length = msgLen) (hrmsg : rmsg.length = msgLen) :
    msg ≠ stopQuotePreimage rmsg := by
  intro h
  have hlen := congrArg List.length h
  rw [hmsg, stopQuotePreimage, List.length_append, List.length_cons, hrmsg] at hlen
  have hdomain : (Text.ascii "tactiq-stop/quote/v1").length = 20 := by decide
  rw [hdomain] at hlen
  exact absurd hlen (by decide)

/-- **No attestation is accepted in two roles**, as long as SHA-256 does not collide at the two
strings it would have to commit to. -/
theorem one_role (C : Crypto) (a msg rmsg : Bytes) :
    (C.CollisionFreeOn {msg, stopQuotePreimage rmsg} →
      EnvelopeQuote C a msg → ¬ ReceiptQuote C a rmsg) ∧
    (EnvelopeQuote C a msg → ¬ ReceiptCertify C a) ∧
    (ReceiptQuote C a rmsg → ¬ ReceiptCertify C a) := by
  refine ⟨fun hfree henv hrec => ?_, fun henv hcert => ?_, fun hrec hcert => ?_⟩
  · obtain ⟨hmsg, q, hq, hextra⟩ := henv.commits
    obtain ⟨hrmsg, q', hq', hextra'⟩ := hrec.commits
    obtain rfl := Except.ok.inj (hq.symm.trans hq')
    rw [hextra] at hextra'
    have hdigest : C.sha256 msg = C.sha256 (stopQuotePreimage rmsg) :=
      List.Vector.toList_injective hextra'
    have hsame := hfree (Set.mem_insert _ _) (Set.mem_insert_of_mem _ rfl) hdigest
    exact ne_stopQuotePreimage hmsg hrmsg hsame
  · obtain ⟨-, q, hq, -⟩ := henv.commits
    obtain ⟨i, hi⟩ := hcert.exists_info
    exact not_info_of_quote hq hi
  · obtain ⟨-, q, hq, -⟩ := hrec.commits
    obtain ⟨i, hi⟩ := hcert.exists_info
    exact not_info_of_quote hq hi

/-- The quote of the first answer: it is accepted as that, and so as nothing else. -/
theorem first_one_role :
    ReceiptQuote Sample.crypto Sample.first.receipt.quoteAttest Sample.first.receipt.msg ∧
      ¬ ReceiptCertify Sample.crypto Sample.first.receipt.quoteAttest := by
  have hparse : Receipt.parse Sample.first.receipt.bytes = .ok Sample.first.receipt :=
    Receipt.parse_ok.mpr ⟨⟨by decide +kernel, by decide +kernel, by decide +kernel,
      by decide +kernel⟩, rfl⟩
  have hquote :
      ReceiptQuote Sample.crypto Sample.first.receipt.quoteAttest Sample.first.receipt.msg :=
    ⟨_, _, _, _, Sample.first_verifies, hparse, rfl, rfl⟩
  exact ⟨hquote, (one_role Sample.crypto _ [] _).2.2 hquote⟩

end TactiqAttest.Appraise
