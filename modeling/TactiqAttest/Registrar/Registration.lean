import TactiqAttest.Registrar.RecordText
import TactiqAttest.Registrar.Runs

/-!
# A registration that was made verifies

`begin` checks at an instant, and records whole seconds; `complete` writes a record from what
`begin` left; `verify` checks the record at the whole seconds.  `recordOf_judged`: each check that
`verify` makes of the record follows from one that `begin` made.

`registration_verifies` is the whole of it: on the right answer the record is written, and verifies
from then on, whenever that is; on any other answer nothing is written.
-/

namespace TactiqAttest.Registrar

open Files Prog

variable {K : Crates} {o : Opts} {w w₀ w₁ w₂ w' : World}
  {state deviceId registrar : String} {g : Given}
  {time : Duration} {e : Examined K} {secret seed oaep : List.Vector UInt8 32} {blob : Bytes}

theorem examine_ok : examine K g time = .ok e ↔
    Chain.verify K.pki K.crypto g.ekDer g.intDer g.rootDer time = .ok e.chain ∧
      Crl.checkChain K.pki g.ekDer g.intDer g.rootDer g.ekCrl g.intCrl time =
        .ok (e.ekCrl, e.intCrl) ∧
      checkAk K g.akPublic = .ok e.name := by
  unfold examine
  simp only [Except.bind_eq_ok, Except.pure_eq_ok, Prod.exists]
  constructor
  · rintro ⟨chain, hchain, ec, ic, hcrls, name, hname, rfl⟩
    exact ⟨hchain, hcrls, hname⟩
  · rintro ⟨hchain, hcrls, hname⟩
    exact ⟨e.chain, hchain, e.ekCrl, e.intCrl, hcrls, e.name, hname, rfl⟩

/-- **The record of what `begin` examined is accepted.** -/
theorem recordOf_judged (hexamined : examine K g time = .ok e)
    (hblob : MakeCred.makeCredentialWithSeed K.credential e.chain.ekPublic
      e.name.toList secret.toList
      seed.toList oaep = .ok blob) (registered : UInt64) :
    Judged K (recordOf K (pendingOf deviceId registrar g time e secret.toList blob) registered
      secret.toList) g.rootDer g.akPublic := by
  obtain ⟨hchain, hcrls, hname⟩ := examine_ok.mp hexamined
  obtain ⟨ek, int, root, haccepted, -⟩ := Chain.verify_ok.mp hchain
  constructor
  case root =>
    rw [← haccepted.rootSha256]
    rfl
  case chain =>
    refine ⟨g.ekDer, g.intDer, e.chain, e.ekCrl, e.intCrl, Hex.decode_encode _, Hex.decode_encode _,
      Chain.verify_secs hchain, ?_, rfl, rfl, rfl, rfl⟩
    exact ⟨_, g.ekCrl, _, g.intCrl, rfl, Hex.decode_encode _, rfl, Hex.decode_encode _,
      Crl.checkChain_secs hcrls⟩
  case ak => exact Hex.decode_encode _
  case name => exact ⟨e.name, hname, rfl⟩
  case blob =>
    obtain ⟨c, hc⟩ := MakeCred.parseFile_makeCredential haccepted.size (List.Vector.toList_length _)
      hblob
    exact ⟨blob, c, Hex.decode_encode _, hc⟩
  case secret => exact ⟨_, Hex.decode_encode _, List.Vector.toList_length _⟩

/-! ## Three commands -/

/-- Under these root certificate bytes, `verify` accepts a record file with these bytes, unless a
call fails, at any time and in any directory, when no signature is to be checked. -/
def Verifies (K : Crates) (rootDer recordBytes : Bytes) : Prop :=
  ∀ (o : Opts) (w : World),
    (∃ path, o.get "record" = .ok path ∧ w.disk.Holds path recordBytes) →
    (∃ path, o.get "root" = .ok path ∧ w.disk.Holds path rootDer) →
    o.opt "sig" = none → o.opt "release-root" = none →
    (∀ path, o.opt "emit-ak" = some path → w.disk.view path = none) →
    (∃ w', Returns (Sem False) (cmdVerify K o).run w (.ok ()) w') ∧
      ∀ out w', Returns (Sem False) (cmdVerify K o).run w out w' → out = .ok ()

theorem possible_false : Possible False = fun w op => ∃ r w', Sem False w ⟨op, r⟩ w' := by
  funext w op
  exact propext ⟨fun h => h not_false, fun h _ => h⟩

/-- A program that obeys, where no call fails, returns. -/
theorem exists_returns_of_obeys {p : Procedure Unit} {Q : World → Except String Unit → Prop}
    (h : Obeys (Sem False) (Possible False) p.run Q w) (hQ : ∀ w' out, Q w' out → out = .ok ()) :
    (∃ w', Returns (Sem False) p.run w (.ok ()) w') ∧
      ∀ out w', Returns (Sem False) p.run w out w' → out = .ok () := by
  refine ⟨?_, fun out w' hreturns => hQ _ _ (h.of_returns hreturns)⟩
  rw [possible_false] at h
  obtain ⟨out, w', hreturns, hout⟩ := h.exists_returns
  obtain rfl := hQ _ _ hout
  exact ⟨w', hreturns⟩

theorem verifies_of_judged {rootDer recordBytes akPublic : Bytes} {record : Record}
    (hparsed : K.recordJson.fromSlice recordBytes = .ok record)
    (hformat : checkFormat record = .ok true) (hid : validateId record.deviceId = .ok ())
    (hjudged : Judged K record rootDer akPublic) : Verifies K rootDer recordBytes := by
  intro o w hrecord hroot hsig hrelease habsent
  have haccepted : Accepted K o w recordBytes rootDer record true akPublic :=
    ⟨hrecord, hroot, hparsed, hformat, hid, judge_ok.mpr hjudged⟩
  exact exists_returns_of_obeys (cmdVerify_accepts haccepted hsig hrelease fun _ => habsent)
    fun _ _ h => h not_false

/-- **A registration that was made verifies.**  When `begin` has succeeded and its pending state was
kept: if the answer is the secret that `begin` drew, `complete` makes the record, and whatever
record it makes verifies under the same root; if not, `complete` does nothing, and fails. -/
theorem registration_verifies {oc : Opts} {rootPath : String} {rootDer drawnSecret : Bytes}
    {more : List Bytes} (hbegin : Returns (Sem True) (cmdBegin K o).run w₀ (.ok ()) w₁)
    (hstate : o.get "state" = .ok state) (hroot : o.get "root" = .ok rootPath)
    (hrootDer : w₀.disk.Holds rootPath rootDer)
    (hsecret : w₁.drawn = w₀.drawn ++ drawnSecret :: more)
    (hkept : ∀ b, w₁.disk.Holds (join state "pending.json") b →
      w₂.disk.Holds (join state "pending.json") b)
    (hstate' : oc.get "state" = .ok state) :
    (∀ path raw answer, oc.get "answer" = .ok path → w₂.disk.Holds path raw →
      answerOf raw = .ok answer → answer.toList = drawnSecret →
      (w₂.disk.view (join state "record.json") = none →
        (∃ w₃, Returns (Sem False) (cmdComplete K oc).run w₂ (.ok ()) w₃) ∧
          ∀ out w₃, Returns (Sem False) (cmdComplete K oc).run w₂ out w₃ → out = .ok ()) ∧
      ∀ w₃, Returns (Sem True) (cmdComplete K oc).run w₂ (.ok ()) w₃ → ∃ recordBytes,
        w₃.disk.Holds (join state "record.json") recordBytes ∧ Verifies K rootDer recordBytes) ∧
    ((∀ path raw answer, oc.get "answer" = .ok path → w₂.disk.Holds path raw →
      answerOf raw = .ok answer → answer.toList ≠ drawnSecret) →
      ∀ cs q w, After (cmdComplete K oc).run cs q → Performs (Sem True) w₂ cs w →
        w = w₂ ∧ q ≠ .ret (.ok ())) := by
  obtain ⟨state', deviceId, registrar, g, time, e, secret, seed, oaep, blob, hbegan⟩ :=
    cmdBegin_obeys.of_returns hbegin rfl
  obtain rfl : state = state' := Except.ok.inj (hstate.symm.trans hbegan.stateDir)
  -- the secret drawn first, and the root file
  have hdrawn := hsecret.symm.trans hbegan.drawn
  obtain rfl : drawnSecret = secret.toList :=
    (List.cons.inj (List.append_cancel_left hdrawn)).1
  obtain ⟨path, hpath, hholds⟩ := hbegan.given "root" g.rootDer (by simp)
  obtain rfl : rootPath = path := Except.ok.inj (hroot.symm.trans hpath)
  obtain rfl := hrootDer.unique hholds
  have hpending := hkept _ hbegan.pending
  refine ⟨fun path raw answer hanswerPath hraw hanswer heq => ⟨fun habsent => ?_,
    fun w₃ hreturns => ?_⟩, fun hwrong cs q w hafter hperf => ?_⟩
  · exact exists_returns_of_obeys (cmdComplete_obeys hstate' hpending rfl (Hex.decode_encode _)
      hanswerPath hraw ⟨answer, hanswer, heq⟩ fun _ => habsent) fun _ _ h => h.2 not_false
  · have hcomplete : Obeys (Sem True) (Possible True) (cmdComplete K oc).run _ w₂ :=
      cmdComplete_obeys hstate' hpending rfl (Hex.decode_encode _) hanswerPath hraw
        ⟨answer, hanswer, heq⟩ fun hno => absurd trivial hno
    obtain ⟨registered, hrecord⟩ := (hcomplete.of_returns hreturns).1 rfl
    refine ⟨_, hrecord, verifies_of_judged (K.recordJson.fromSlice_toVecPretty _ [0x0A] ?_)
      ((checkFormat_v2 rfl).mpr ⟨rfl, rfl, rfl⟩) hbegan.validId
      (recordOf_judged hbegan.examined hbegan.credential registered)⟩
    intro b hb
    exact .inr (.inr (.inl (List.mem_singleton.mp hb)))
  · have hstill : Obeys (Sem True) _ (cmdComplete K oc).run _ w₂ :=
      cmdComplete_still hstate' hpending rfl (Hex.decode_encode _) hwrong
    have hsame : w = w₂ := by
      refine hstill.invariant (I := (· = w₂)) ?_ rfl hafter hperf
      rintro w op r w' rfl ⟨path, rfl⟩ ⟨⟨hstep, hdrawn⟩, -⟩
      obtain ⟨d, drawn⟩ := w
      obtain ⟨d', drawn'⟩ := w'
      obtain rfl : drawn' = drawn := hdrawn
      dsimp only at hstep
      cases hstep with
      | read _ => rfl
      | failed _ => rfl
    refine ⟨hsame, ?_⟩
    rintro rfl
    exact hstill.after hafter hperf rfl

/-! ## An example

The certificates and revocation lists are the registrar's own fixtures, and the AK is a fixture of
the verifier.  Parsing and the cryptography are tables with what the crates make of these. -/

/-- So many bytes, written by numbers of 32 bytes and what is left. -/
def ofWords : ℕ → List ℕ → Bytes
  | _, [] => []
  | n, w :: ws => BigEndian.encode (min n 32) w ++ ofWords (n - 32) ws

/-- A root certificate, which signs itself. -/
def sampleRoot : Bytes :=
  ofWords 808 [
    0x308203243082020ca00302010202021000300d06092a864886f70d01010b0500,
    0x30333115301306035504030c0c5465737420526f6f74204341310d300b060355,
    0x040a0c0454657374310b3009060355040613024445301e170d32363039323530,
    0x30303030305a170d3336303932353030303030305a3033311530130603550403,
    0x0c0c5465737420526f6f74204341310d300b060355040a0c0454657374310b30,
    0x0906035504061302444530820122300d06092a864886f70d0101010500038201,
    0x0f003082010a0282010100b1f43d4bf1ca176c554355e478b1341a30c7c25862,
    0x76ca8d72e9e454c91cef690d93941bf1c3e1e0847f21fcf2ff4df9195fa25aa4,
    0xae37bcb4685af9c77039cf632b53350ce0c9771dfd0335b2633b0ed380fe9c2b,
    0x0e420dfaadfdc994574da7d02d20f883d10a14ba579c593c7ec9a500dca86e75,
    0xfd561f3841b4b728c1de5cf83d4ef5377791a4be5917e162af68887952a4a14f,
    0xed112ee2764f20222cac31f2c53163a676214f2a799342afdbbadd7260f70018,
    0xddc28a1256acf43d3ca83ca9ca02850218b6c020e4f5fa44b20779f394e42199,
    0xc86c068d524fd0462c05657b43aa38bb447becb2d66fdc707eef43f1b0115d3c,
    0x7f9328852bb7990f7ed7f70203010001a3423040300f0603551d130101ff0405,
    0x30030101ff300e0603551d0f0101ff040403020106301d0603551d0e04160414,
    0xef07e2c18bb96f363794ff60bdd818663c4ad5e3300d06092a864886f70d0101,
    0x0b05000382010100a73e3a7afa011a887d1a503e2d5d7b6334b2fb7b8416aa2d,
    0x878d747074b8469c2603c6d268578aec7fab1a2d3c53d55c342e59d2d02a1ea5,
    0x8545b41114a335348befb142736cca0b39f961c5aa07e82905634ea649675c5b,
    0x05f66379ca3f8d162c314afc067db384d61b803077b7e29284af2b80d89cc8e8,
    0xb114000bf858801c55240496722b169ec659d09b468359c5a8b0b723bd9d46e4,
    0x0979a361322657b07a9c29774f187f8fbc19b7a979ec1d5d9131c733ce23a2b2,
    0xbcefb9bea4aabc8d69ce1d686f72b5e64789b24907a7d95f0ed3630163bcbaa0,
    0x4837382d3133ac0ad31e6bf26f33c01e68e870ab936a9699f204d1f5846ad734,
    0xa396ca2bbac094c6]

/-- An intermediate certificate. -/
def sampleInt : Bytes :=
  ofWords 871 [
    0x308203633082024ba00302010202021001300d06092a864886f70d01010b0500,
    0x30333115301306035504030c0c5465737420526f6f74204341310d300b060355,
    0x040a0c0454657374310b3009060355040613024445301e170d32363039323530,
    0x30303030305a170d3336303932353030303030305a303c311e301c0603550403,
    0x0c1554657374204d616e75666163747572696e67204341310d300b060355040a,
    0x0c0454657374310b300906035504061302444530820122300d06092a864886f7,
    0x0d01010105000382010f003082010a0282010100ac4c7af5648fd6908cda954e,
    0xf4178d7933e77b2d8c01ca0cba7bab3b3553ca95c93254a5e7ac04eed443f5b7,
    0x0f1d0dc5bedf47e019192543a877202c9c2821e4b35715926fd2a332ed5c2d15,
    0xdd13bc557894b624bb0eca90dd631af4b21d5928f520dd046c1a9feb88a8186c,
    0x22c14a61ba3471187a59811fafcd59aef7959d996e19e8d46e50820f930f04c3,
    0x48060d7ffac1f8e6c8c496ded4812c2387d85b602751a50722cefe906791263e,
    0xcef8a9ea12a4c610a23d306d7acd4c58b9acbcbc73e30306b0e33a5b915795e1,
    0x2e0c456c8268a03ad4c70a2401449a489c1f24defebc2bcba514df18f8bf285a,
    0xa000d744de6b25bce5d55c0963a4985efea962bb0203010001a3783076301206,
    0x03551d130101ff040830060101ff020100300e0603551d0f0101ff0404030201,
    0x0630100603551d250409300706056781050801301d0603551d0e04160414c225,
    0x9e1c07a53801a239a5704a2b73fc5b4d75d0301f0603551d23041830168014ef,
    0x07e2c18bb96f363794ff60bdd818663c4ad5e3300d06092a864886f70d01010b,
    0x0500038201010033ae03e905129275fdeb4502265eacd10961f96226ca3a2f79,
    0x101d806c8691274b40adfdce7189d2b403332258ce3990e68475f6d25887efc1,
    0xb064f5a3997c36f7a23d71ed72396bfc2e6151b32d8989a7fd766b39caf547b0,
    0xcf886dd61545fd94b2006ffaa7959262c1be298a4cf0bda08bf156ff97ddb04d,
    0x87e2f70793d235f7ec1eabd106de77e5098af39e418a4c80cb456786052f1bdd,
    0xd3876e99c192febecda612bc6c7536cc177e288e1b78eaa4cefa151d2369b5dc,
    0xe76a620ca80c3b751d43f4d84ed5f8e639153d6a126cae49f95fda861e8834dd,
    0x97c5636d92936d47a5e055ef3d0d64055a955423e89c046b5f0821e89f699bbd,
    0x84d9afe106f50c]

/-- The certificate of an endorsement key. -/
def sampleEk : Bytes :=
  ofWords 899 [
    0x3082037f30820267a00302010202021000300d06092a864886f70d01010b0500,
    0x303c311e301c06035504030c1554657374204d616e75666163747572696e6720,
    0x4341310d300b060355040a0c0454657374310b3009060355040613024445301e,
    0x170d3236303932353030303030305a170d3336303932353030303030305a3000,
    0x30820122300d06092a864886f70d01010105000382010f003082010a02820101,
    0x009f309d47accc8e14ddef2ccd6f5df71419bd720273eb58ce69afd909c93c25,
    0x874f41fca31202cf279ee48b59a46aa5869ec788cff797a07d6c96c8754f782c,
    0xa7f3cbdc40d2ad7f2cac8815818fec850d41546b8fdfbef09bbbeaedceaaaa79,
    0xf21b2c0b2a31f01767f1e8e38de0360a8d75d5b0ff5224a8491455fb1de79d0d,
    0xa73da599b5a54398ff33805d65c25c89a0598992559afd4e8c1f6f12865c4bd9,
    0x17f2d68b1d9fa15f4ae72b6b2555d2c95e615fd1b55fbda3fbc0a5906175b9c2,
    0xf1bba539ad1c290aa22778e2a9612360d61078415dddb6b09864f0984832df11,
    0x65de2453ff748c5b6dd31518b8484f1504b5ff1b580ba2308a55dd8289577dee,
    0x430203010001a381c63081c3300c0603551d130101ff04023000300e0603551d,
    0x0f0101ff04040302052030510603551d110101ff04473045a443304131163014,
    0x060567810502010c0b69643a353434353533353431133011060567810502020c,
    0x08544553542054504d31123010060567810502030c0769643a30303031301006,
    0x03551d250409300706056781050801301d0603551d0e0416041485a2c1ff93f0,
    0x45dccf6510d83d18aea1a226ed17301f0603551d23041830168014c2259e1c07,
    0xa53801a239a5704a2b73fc5b4d75d0300d06092a864886f70d01010b05000382,
    0x0101000314d1cff027bfe0e7cb357075d5b1df7edc6c4cba3c252c1a775d8af7,
    0x3ea5b0276c3d26b4e863f6000b8084a770eed013d118fd54a2708f311fcc784e,
    0xae01cb3b0c3d1ed21913a606783da2dfc74beb5b3f22d581abdbcbbc38745a53,
    0x24e5e71e0bce298451da4e74992980c332d62cb35ef80d9c0ff8b236a19b0791,
    0xdb66f76d35439f8bcbf27f7e7700ac8d0967e7411be54afa9db19dac12c1ca91,
    0x07047d04e150ef4ff9146394ef2265c1089bcf212c127bcec3678705695b0354,
    0x83021ac359e1f8ef1916dc967f37064e1fdd13393cf85389c4225824bdd6cd5c,
    0xf3a0cce23bb3b8ff44d035ff2cd8c2bb40fc52a9a56ddcb4ef1cf49244e29516,
    0x6cec20]

/-- The revocation list of the intermediate, which is empty. -/
def sampleEkCrl : Bytes :=
  ofWords 443 [
    0x308201b73081a0020101300d06092a864886f70d01010b0500303c311e301c06,
    0x035504030c1554657374204d616e75666163747572696e67204341310d300b06,
    0x0355040a0c0454657374310b3009060355040613024445170d32363039323530,
    0x30303030305a170d3236313032353030303030305aa030302e301f0603551d23,
    0x041830168014c2259e1c07a53801a239a5704a2b73fc5b4d75d0300b0603551d,
    0x14040402021000300d06092a864886f70d01010b050003820101006212a5cffc,
    0xeb8fec71d36951980d9678eeacbfefea81bff31528c2ced83f057f2bb23a7ffb,
    0xe9905d4114da2ac2c73e5998d07a76b7a365d691e700dd0f816794d34d8b5e86,
    0x441e8c073e7fde2b2eeae7d94142c575ec3a6607430ffd645cd3da189753ff12,
    0xdb6ee286010b7d0094ca326a5d1a0b82b017e932f793df453e25648bd5a6df37,
    0xbf3718a9239da8f7e8f3004ed43faa9a28806771edb702747a1d0e6b3fcd21ce,
    0x5056e04e138d51a959df32858e8a7f6851144d6a2597787cffba9c6e45305ae2,
    0xa0884b7a4faf46dd0b1931f6691560c9bcfd314ed4dc5c02342e6ea263c30ad9,
    0xe0d045568acea8f1c702bcd3944097e8e0c9fb7ce35dbfdc94c949]

/-- The revocation list of the root, which is empty. -/
def sampleIntCrl : Bytes :=
  ofWords 434 [
    0x308201ae308197020101300d06092a864886f70d01010b050030333115301306,
    0x035504030c0c5465737420526f6f74204341310d300b060355040a0c04546573,
    0x74310b3009060355040613024445170d3236303932353030303030305a170d32,
    0x36313032353030303030305aa030302e301f0603551d23041830168014ef07e2,
    0xc18bb96f363794ff60bdd818663c4ad5e3300b0603551d14040402021000300d,
    0x06092a864886f70d01010b0500038201010096c1db377b58ff5a4d1c05f00b7b,
    0xf64828e6fba74439876170134745d3f0ad987890b1e2254c35124b5464e7ab7d,
    0xd93d2be3d03da2863169ac59c579b8c493eb8c36a0ad554efaafa045877d5b6e,
    0xdf9f6564cda20635370ffa462bb3f338ccc276636f116ec76cc57fddec4193c5,
    0x225cdba89fb4927a718fe8f9fd82479b62f177ceae18f4e387c51b74690dbc5e,
    0x4f770ea81f7a213f8372347e1010b9b84cac09084eb5eebd51f3f8af2cdef851,
    0x316b7949db6306937cf25c1dcc1a8ad3509e3772c3bf101229fccc6264f95ad7,
    0xac10d53d304d3f82a18addfaacaf733b0b4590e35b35b969a704e1fd2b4398ee,
    0x35618ac502f7ecf70ccd457be59563e20d89]

/-- An AK public area. -/
def sampleAk : Bytes :=
  ofWords 90 [
    0x00580023000b00050072000000100018000b0003001000209679068a49266126,
    0x277a0dc6a6ac96728dc6cf203d3a4216a34c2d3e34b32fa700206dc555cfe56a,
    0xc434027688a9df6164fa45632c20468b5dbe4849b6fc3aa29377]

/-- The secret under AES-128 in CFB mode, with its size before it. -/
def sampleIdentity : Bytes :=
  ofWords 34 [
    0xbcf780682febf0f65ae1e44056cda9171b9e4fd6f28227dffe19ce2f79adb0f2,
    0x39f0]

/-- The seed under RSA-OAEP. -/
def sampleSeed : Bytes :=
  ofWords 256 [
    0x5860bdcbf7b5f26fb88d08674c642a35e1bde1fb4551d9a26be40d6482bbe627,
    0x1ceba48f1f8f193432beb531553da6b5c876de9d251df5c21260d5437ddd8c50,
    0xdb0e8288b79821ea425e461707f03755f5c6a551393ed1809b91625351eefb6a,
    0x5ad1f9ee1d09b817fac205a9c4e46a2bb21ad0753ace860bf57ed294eb688122,
    0xf1fda957ba9b318d5182924aea67a3d8bb01c19d49dd839a835a3cf3e844ec21,
    0x08aacf32ba0e5910ab2fcb62e53cd7de97b8bfeb76eb69f22b5d4812e0670886,
    0xbb7c7b9a67038e2d7257549ea3841faa6b4cd8c3dc956c99fa27c6ef5b34b5d7,
    0x752347c8f24c51f1240850e6fdf1682397aa49e6d263d05a70570afd2aeb8724]

/-- A part of a byte string. -/
def slice (b : Bytes) (start len : ℕ) : Bytes := (b.drop start).take len

def sampleRootKey : Bytes := slice sampleRoot 170 294
def sampleIntKey : Bytes := slice sampleInt 179 294
def sampleEkKey : Bytes := slice sampleEk 128 294

def basicCa : Bytes := [0x30, 0x03, 0x01, 0x01, 0xFF]
def basicCaLast : Bytes := [0x30, 0x06, 0x01, 0x01, 0xFF, 0x02, 0x01, 0x00]
def basicNone : Bytes := [0x30, 0x00]
def usageCa : Bytes := [0x03, 0x02, 0x01, 0x06]
def usageEk : Bytes := [0x03, 0x02, 0x05, 0x20]
def ekuEk : Bytes := [0x30, 0x07, 0x06, 0x05, 0x67, 0x81, 0x05, 0x08, 0x01]

/-- What the certificates of the example have in common. -/
def sampleCertificate (der tbs key serial : Bytes) (issuer subject : Name)
    (extensions : List Extension) : Certificate where
  der := .ok der
  tbsDer := .ok tbs
  signatureAlgorithm := Chain.sha256WithRsa
  tbsSignature := Chain.sha256WithRsa
  signature := some (der.drop (der.length - 256))
  issuer := issuer
  subject := subject
  serialNumber := serial
  notBefore := ⟨1790294400, "2026-09-25T00:00:00Z"⟩
  notAfter := ⟨2105913600, "2036-09-25T00:00:00Z"⟩
  subjectPublicKeyInfo := .ok key
  extensions := extensions

def sampleRootCertificate : Certificate :=
  sampleCertificate sampleRoot (slice sampleRoot 4 528) sampleRootKey [0x10, 0x00]
    ⟨.ok (slice sampleRoot 32 53), "CN=Test Root CA,O=Test,C=DE"⟩
    ⟨.ok (slice sampleRoot 117 53), "CN=Test Root CA,O=Test,C=DE"⟩
    [⟨Chain.extBasicConstraints, true, basicCa⟩, ⟨Chain.extKeyUsage, true, usageCa⟩,
      ⟨"2.5.29.14", false, slice sampleRoot 510 22⟩]

def sampleIntCertificate : Certificate :=
  sampleCertificate sampleInt (slice sampleInt 4 591) sampleIntKey [0x10, 0x01]
    ⟨.ok (slice sampleInt 32 53), "CN=Test Root CA,O=Test,C=DE"⟩
    ⟨.ok (slice sampleInt 117 62), "CN=Test Manufacturing CA,O=Test,C=DE"⟩
    [⟨Chain.extBasicConstraints, true, basicCaLast⟩, ⟨Chain.extKeyUsage, true, usageCa⟩,
      ⟨Chain.extExtKeyUsage, false, ekuEk⟩, ⟨"2.5.29.14", false, slice sampleInt 540 22⟩,
      ⟨"2.5.29.35", false, slice sampleInt 571 24⟩]

def sampleEkCertificate : Certificate :=
  sampleCertificate sampleEk (slice sampleEk 4 619) sampleEkKey [0x10, 0x00]
    ⟨.ok (slice sampleEk 32 62), "CN=Test Manufacturing CA,O=Test,C=DE"⟩
    ⟨.ok (slice sampleEk 126 2), ""⟩
    [⟨Chain.extBasicConstraints, true, basicNone⟩, ⟨Chain.extKeyUsage, true, usageEk⟩,
      ⟨Chain.extSubjectAltName, true, slice sampleEk 470 71⟩,
      ⟨Chain.extExtKeyUsage, false, ekuEk⟩, ⟨"2.5.29.14", false, slice sampleEk 568 22⟩,
      ⟨"2.5.29.35", false, slice sampleEk 599 24⟩]

/-- What the revocation lists of the example have in common. -/
def sampleList (der tbs : Bytes) (issuer : Name) (authorityKey : Bytes) : CertificateList where
  tbsDer := .ok tbs
  signatureAlgorithm := Chain.sha256WithRsa
  tbsSignature := Chain.sha256WithRsa
  signature := some (der.drop (der.length - 256))
  issuer := issuer
  thisUpdate := ⟨1790294400, "2026-09-25T00:00:00Z"⟩
  nextUpdate := some ⟨1792886400, "2026-10-25T00:00:00Z"⟩
  crlExtensions := [⟨"2.5.29.35", false, authorityKey⟩]
  revokedCertificates := []

def sampleEkList : CertificateList :=
  sampleList sampleEkCrl (slice sampleEkCrl 4 163)
    ⟨.ok (slice sampleEkCrl 25 62), "CN=Test Manufacturing CA,O=Test,C=DE"⟩
    (slice sampleEkCrl 130 24)

def sampleIntList : CertificateList :=
  sampleList sampleIntCrl (slice sampleIntCrl 4 154)
    ⟨.ok (slice sampleIntCrl 25 53), "CN=Test Root CA,O=Test,C=DE"⟩ (slice sampleIntCrl 121 24)

/-- What a table has for a byte string. -/
def ofTable {α : Type} (table : List (Bytes × α)) (b : Bytes) : Except String α :=
  Except.ofOption "malformed" (table.lookup b)

theorem ofTable_cons_self {α : Type} {b : Bytes} {v : α} {table : List (Bytes × α)} :
    ofTable ((b, v) :: table) b = .ok v := by
  rw [ofTable, List.lookup_cons_self]
  rfl

theorem ofTable_cons_ne {α : Type} {b b' : Bytes} {v : α} {table : List (Bytes × α)} (h : b ≠ b') :
    ofTable ((b', v) :: table) b = ofTable table b := by
  have hbeq : (b == b') = false := beq_eq_false_iff_ne.mpr h
  rw [ofTable, List.lookup_cons, hbeq, ofTable]

def samplePki : Pki where
  PublicKey := Bytes
  Signature := Bytes
  certificateFromDer := ofTable [(sampleRoot, sampleRootCertificate),
    (sampleInt, sampleIntCertificate), (sampleEk, sampleEkCertificate)]
  certificateFromPem := ofTable []
  crlFromDer := ofTable [(sampleEkCrl, sampleEkList), (sampleIntCrl, sampleIntList)]
  contentInfoFromDer := ofTable []
  basicConstraintsFromDer := ofTable [(basicCa, ⟨true, none⟩), (basicCaLast, ⟨true, some 0⟩),
    (basicNone, ⟨false, none⟩)]
  keyUsageFromDer := ofTable [(usageCa, [.keyCertSign, .cRLSign]), (usageEk, [.keyEncipherment])]
  extKeyUsageFromDer := ofTable [(ekuEk, [Chain.tcgKpEkCertificate])]
  publicKeyFromDer := .ok
  -- a modulus of 256 bytes makes a key of 294
  size key := key.length - 38
  signatureFromBytes := .ok
  verify := (Crypto.ofTable [
    (sampleRootKey, slice sampleRoot 4 528, slice sampleRoot 552 256),
    (sampleRootKey, slice sampleInt 4 591, slice sampleInt 615 256),
    (sampleIntKey, slice sampleEk 4 619, slice sampleEk 643 256),
    (sampleIntKey, slice sampleEkCrl 4 163, slice sampleEkCrl 187 256),
    (sampleRootKey, slice sampleIntCrl 4 154, slice sampleIntCrl 178 256)]).verify

/-- HMAC-SHA256 of keys of up to 64 bytes. -/
def sampleHmac (key message : Bytes) : List.Vector UInt8 32 :=
  let padded := key ++ List.replicate (64 - key.length) 0
  let inner := Sha256.hash (padded.map (· ^^^ 0x36) ++ message)
  Sha256.hash (padded.map (· ^^^ 0x5C) ++ inner.toList)

def sampleCredential : CredentialCrypto samplePki where
  hmac := sampleHmac
  cfbEncrypt _ _ plain :=
    if plain = Envelope.tpm2b (List.replicate 32 0x11) then sampleIdentity else plain
  length_cfbEncrypt _ _ plain := by
    split_ifs with h
    · rw [h]
      decide +kernel
    · rfl
  oaepEncrypt (key : Bytes) label random plain :=
    if key = sampleEkKey ∧ label = MakeCred.labelIdentity ∧ random.toList = List.replicate 32 0x33 ∧
      plain = List.replicate 32 0x22 then .ok sampleSeed else .error "message too long"
  length_oaepEncrypt h := by
    split_ifs at h with hkey
    obtain ⟨rfl, -⟩ := hkey
    obtain rfl := Except.ok.inj h
    decide +kernel

noncomputable def sampleCrates : Crates where
  pki := samplePki
  crypto := Crypto.ofTable []
  credential := sampleCredential
  fromAffine x y := .ok (0x04 :: (x ++ y))
  pendingJson := pendingFiles
  recordJson := recordFiles

/-- A disk with these files. -/
def ofFiles (files : List (String × Bytes)) : Disk String where
  saved n := if n ∈ files.map Prod.fst then some ((files.map Prod.fst).idxOf n) else none
  pending := []
  data f := ((files.map Prod.snd)[f]?).getD []
  synced _ := true
  next := files.length

def sampleAnswer : Bytes := Text.ascii "certinfodata:" ++ List.replicate 64 0x31 ++ [0x0A]

def sampleWorld : World where
  disk := ofFiles [("ek.der", sampleEk), ("int.der", sampleInt), ("root.der", sampleRoot),
    ("ak.pub", sampleAk), ("int.crl", sampleEkCrl), ("root.crl", sampleIntCrl),
    ("answer", sampleAnswer)]
  drawn := []

def sampleBegin : Opts :=
  opts ["--state", "reg", "--device-id", "bench-01", "--registrar", "bench", "--ek-cert", "ek.der",
    "--intermediate", "int.der", "--root", "root.der", "--ak-public", "ak.pub",
    "--ek-crl", "int.crl", "--intermediate-crl", "root.crl"]

def sampleComplete : Opts := opts ["--state", "reg", "--answer", "answer"]

/-- The calls are answered half a second into 2026-10-01.  What is drawn first is all `0x11`, what
is drawn next is all `0x22`, and so on. -/
def sampleMachine (w : World) : (op : Op) → Reply op × World
  | .file op => ((w.disk.serve op).1, ⟨(w.disk.serve op).2, w.drawn⟩)
  | .createNew path _ =>
    ((w.disk.serve (.createNew path)).1, ⟨(w.disk.serve (.createNew path)).2, w.drawn⟩)
  | .createDir _ _ => (.ok (), w)
  | .now => (⟨1790812800, 500000000, by decide⟩, w)
  | .random n =>
    let drawn := List.Vector.replicate n (0x11 * UInt8.ofNat (w.drawn.length + 1))
    (drawn, ⟨w.disk, w.drawn ++ [drawn.toList]⟩)
  | .print _ => ((), w)

theorem sem_sampleMachine (w : World) (op : Op) :
    Sem True w ⟨op, (sampleMachine w op).1⟩ (sampleMachine w op).2 := by
  refine ⟨?_, fun _ => trivial⟩
  cases op with
  | file op => exact ⟨Disk.step_serve _ _, rfl⟩
  | createNew path mode => exact ⟨Disk.step_serve _ _, rfl⟩
  | createDir path mode => rfl
  | now => rfl
  | random n => exact ⟨rfl, rfl⟩
  | print lines => rfl

/-- `begin`, call by call. -/
noncomputable def sampleRun :=
runFor sampleMachine 40 (cmdBegin sampleCrates sampleBegin).run sampleWorld

/-- The world that `begin` leaves. -/
noncomputable def sampleBegun : World := sampleRun.2.1

theorem sampleBegun_facts : sampleRun.2.2.result = some (.ok ()) ∧
    sampleBegun.drawn =
      [List.replicate 32 0x11, List.replicate 32 0x22, List.replicate 32 0x33] ∧
    sampleBegun.disk.view "answer" = some 6 ∧ sampleBegun.disk.data 6 = sampleAnswer ∧
    sampleBegun.disk.view "reg/record.json" = none := by
  decide +kernel

theorem answerOf_sample : answerOf sampleAnswer = .ok (List.Vector.replicate 32 0x11) := by
  have hascii : ∀ b ∈ sampleAnswer, b.toNat < 0x80 := by decide +kernel
  unfold answerOf
  rw [Chars.utf8Valid_of_ascii hascii, Chars.lossy_of_ascii hascii]
  decide +kernel

/-- A registration is begun, completed with the device's answer, and verifies. -/
theorem registration_verifies_sample : ∃ w recordBytes,
    Returns (Sem True) (cmdComplete sampleCrates sampleComplete).run sampleBegun (.ok ()) w ∧
      w.disk.Holds "reg/record.json" recordBytes ∧
      Verifies sampleCrates sampleRoot recordBytes := by
  obtain ⟨hresult, hdrawn, hview, hdata, habsent⟩ := sampleBegun_facts
  have hbegin : Returns (Sem True) (cmdBegin sampleCrates sampleBegin).run sampleWorld (.ok ())
      sampleBegun := by
    -- by their equations: comparing the two runs would carry them out again
    rw [sampleRun] at hresult
    rw [sampleBegun, sampleRun]
    exact returns_of_runFor sem_sampleMachine hresult
  have hroot : sampleWorld.disk.Holds "root.der" sampleRoot := ⟨2, by decide +kernel, rfl⟩
  have hstate : sampleBegin.get "state" = .ok "reg" := by decide +kernel
  have hrootPath : sampleBegin.get "root" = .ok "root.der" := by decide +kernel
  have hstate' : sampleComplete.get "state" = .ok "reg" := by decide +kernel
  have h := (registration_verifies hbegin hstate hrootPath hroot hdrawn (fun _ h => h) hstate').1
    "answer" sampleAnswer _ (by decide +kernel) ⟨6, hview, hdata⟩ answerOf_sample rfl
  rw [show join "reg" "record.json" = "reg/record.json" by decide +kernel] at h
  obtain ⟨⟨w, hreturns⟩, -⟩ := h.1 habsent
  have hreturns' : Returns (Sem True) (cmdComplete sampleCrates sampleComplete).run sampleBegun
      (.ok ()) w := hreturns.mono fun _ _ _ hstep => ⟨hstep.1, fun _ => trivial⟩
  obtain ⟨recordBytes, hholds, hverifies⟩ := h.2 w hreturns'
  exact ⟨w, recordBytes, hreturns', hholds, hverifies⟩

end TactiqAttest.Registrar
