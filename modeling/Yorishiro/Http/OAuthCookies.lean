import Yorishiro.Base.Error
import Yorishiro.Http.StateToken
import Yorishiro.Metaschema.Validate

/-!
# The cookies of a sign-in

`accept_invite` and `authorize` send the browser away with a signed state and a signed cookie: an
invite token or a workspace, bound to the CSRF cookie. `callback` opens them again. All three texts
are signed with one key, and each is cut at its dots in another way.

`Issued` are the values that have been issued under a key. Texts whose signatures are not forged spell
issued values (`exists_spells`), and the number of dots and the letters around them tell the kinds
apart: a state is never opened as a cookie, nor a cookie verified as a state
(`exists_of_verifyAt`, `exists_of_openCookie`).
-/

set_option autoImplicit false

namespace Yorishiro.Http

open Yorishiro.Lib Yorishiro.Metaschema StateToken

/-! ## The functions -/

/-- `CSRF_COOKIE_NAME`. -/
def csrfCookieName : List Char := "ysr_oauth_csrf".toList

/-- `INVITE_COOKIE_NAME`. -/
def inviteCookieName : List Char := "ysr_oauth_invite".toList

/-- `WORKSPACE_COOKIE_NAME`. -/
def workspaceCookieName : List Char := "ysr_oauth_workspace".toList

/-- `trim`. -/
def trim (text : List Char) : List Char :=
  ((text.dropWhile isWhitespace).reverse.dropWhile isWhitespace).reverse

/-- `read_cookie`, from the `Cookie` header where it is text. -/
def readCookie (raw : Option (List Char)) (name : List Char) : Option (List Char) := do
  let raw ← raw
  (raw.splitOn ';').findSome? fun pair => do
    let (key, value) ← Separated.splitOnce '=' pair
    if trim key = name ∧ trim value ≠ [] then some (trim value) else none

/-- The check of `accept_invite` on the token of an invitation. -/
def isInviteToken (token : List Char) : Bool := token.length == 48 && token.all Char.isAlphanum

/-- A cookie that sets `value` for the callback. -/
def setCookie (name value : List Char) (secure : Bool) : List Char :=
  name ++ '=' :: value ++
    "; HttpOnly; SameSite=Lax; Path=/auth/oauth/callback; Max-Age=600".toList ++
    if secure then "; Secure".toList else []

/-- A cookie that clears `name`. -/
def clearCookie (name : List Char) : List Char :=
  name ++ "=; HttpOnly; SameSite=Lax; Path=/auth/oauth/callback; Max-Age=0".toList

section Functions

variable (mac : List UInt8 → List UInt8 → List UInt8) (sha256 : List UInt8 → List UInt8)

/-- The value of a cookie that is bound to the CSRF cookie. -/
def boundCookie (signingKey : List UInt8) (csrf content : List Char) : List Char :=
  dotted (dotted csrf content) (sign mac signingKey (utf8 (dotted csrf content)))

/-- `accept_invite`: the cookies it sets. -/
def acceptInvite (signingKey : List UInt8) (secure : Bool) (csrf : RandomString 22)
    (inviteToken : List Char) : Except YorishiroError (List (List Char)) :=
  if !isInviteToken inviteToken then
    .error (.validationFailed "invalid invite token" [] "use the token from the invitation")
  else
    .ok [setCookie csrfCookieName csrf.chars secure,
      setCookie inviteCookieName (boundCookie mac signingKey csrf.chars inviteToken) secure]

/-- The workspace in a cookie: nothing when none was selected. -/
def selectionText (workspaceId : Option Uuid) : List Char :=
  (workspaceId.map fun id => id.toString.toList).getD []

/-- `authorize`: the cookies it sets. -/
def authorize (signingKey : List UInt8) (secure : Bool) (csrf : RandomString 22)
    (workspaceId : Option Uuid) : List (List Char) :=
  [setCookie csrfCookieName csrf.chars secure, clearCookie inviteCookieName,
    setCookie workspaceCookieName
      (boundCookie mac signingKey csrf.chars (selectionText workspaceId)) secure]

/-- `handle_callback`, by what the identity provider returns for the code and the verifier. -/
def handleCallback {ι : Type} (signingKey : List UInt8) (now : I64)
    (exchange : List Char → List Char → Except YorishiroError ι) (code state : List Char)
    (csrfCookieValue : Option (List Char)) : Except YorishiroError ι :=
  match verifyAt mac signingKey state now with
  | none => .error .unauthenticated
  | some verified =>
      if csrfCookieValue.map (hashCsrfCookie sha256) = some verified.csrfHash then
        exchange code verified.pkceVerifier
      else .error .unauthenticated

/-- What `callback` reads from a cookie that is bound to the CSRF cookie. -/
def openCookie (signingKey : List UInt8) (csrfCookieValue : Option (List Char))
    (cookie : List Char) : Except YorishiroError (List Char) :=
  match Separated.rsplitOnce '.' cookie with
  | none => .error .unauthenticated
  | some (payload, signature) =>
      match Separated.splitOnce '.' payload with
      | none => .error .unauthenticated
      | some (csrf, content) =>
          if csrfCookieValue ≠ some csrf ∨ ¬verify mac signingKey (utf8 payload) signature then
            .error .unauthenticated
          else .ok content

/-- What `callback` reads of a request. -/
structure CallbackRequest where
  cookies : Option (List Char)
  code : Option (List Char)
  state : Option (List Char)
  error : Option (List Char)

/-- What `callback` goes on with: the invitation to accept, or the workspace to sign in to. -/
inductive CallbackStep (ι : Type) where
  | loginFailure
  | acceptInvite (identity : ι) (token : List Char)
  | signIn (identity : ι) (requestedWorkspace : Option Uuid)
deriving DecidableEq

/-- `callback`, up to where it goes to the database. -/
def callback {ι : Type} (signingKey : List UInt8) (now : I64)
    (exchange : List Char → List Char → Except YorishiroError ι) (request : CallbackRequest) :
    Except YorishiroError (CallbackStep ι) :=
  let csrfCookieValue := readCookie request.cookies csrfCookieName
  if request.error.isSome then .ok .loginFailure
  else
    match request.code, request.state with
    | some code, some requestState => do
        let identity ←
          handleCallback mac sha256 signingKey now exchange code requestState csrfCookieValue
        match readCookie request.cookies inviteCookieName with
        | some cookie => do
            let token ← openCookie mac signingKey csrfCookieValue cookie
            return .acceptInvite identity token
        | none =>
            match readCookie request.cookies workspaceCookieName with
            | none => return .signIn identity none
            | some cookie => do
                let workspace ← openCookie mac signingKey csrfCookieValue cookie
                if workspace.isEmpty then return .signIn identity none
                else
                  match Uuid.parseStr (String.ofList workspace) with
                  | none => .error .unauthenticated
                  | some id => return .signIn identity (some id)
    | _, _ => .ok .loginFailure

/-! ## What has been issued -/

/-- A value issued under a key, by what was drawn for it. -/
inductive Issued where
  | state (issuedAt : I64) (csrf : RandomString 22) (pkceVerifier : RandomString 43)
  | invite (csrf : RandomString 22) (token : RandomString 48)
  | workspace (csrf : RandomString 22) (workspaceId : Option Uuid)

/-- What is signed of it. -/
def Issued.payload : Issued → List Char
  | .state issuedAt csrf pkceVerifier =>
      StateToken.payload (printI64 issuedAt) (hashCsrfCookie sha256 csrf.chars) pkceVerifier.chars
  | .invite csrf token => dotted csrf.chars token.chars
  | .workspace csrf workspaceId => dotted csrf.chars (selectionText workspaceId)

/-- The text is the issued value, up to the case of the digits of its signature. -/
def Spells (signingKey : List UInt8) (text : List Char) (i : Issued) : Prop :=
  ∃ signature, text = dotted (i.payload sha256) signature ∧
    lower signature = sign mac signingKey (utf8 (i.payload sha256))

/-- A valid signature at the end of the text is one that was issued. -/
def Unforged (signingKey : List UInt8) (issued : Set Issued) (text : List Char) : Prop :=
  ∀ payload signature, text = dotted payload signature →
    lower signature = sign mac signingKey (utf8 payload) →
    ∃ i ∈ issued, lower signature = sign mac signingKey (utf8 (i.payload sha256))

/-- The signed texts of a request carry no forged signatures. -/
structure CallbackRequest.Unforged (signingKey : List UInt8) (issued : Set Issued)
    (request : CallbackRequest) : Prop where
  state : ∀ text, request.state = some text → Http.Unforged mac sha256 signingKey issued text
  invite : ∀ text, readCookie request.cookies inviteCookieName = some text →
    Http.Unforged mac sha256 signingKey issued text
  workspace : ∀ text, readCookie request.cookies workspaceCookieName = some text →
    Http.Unforged mac sha256 signingKey issued text

/-- The CSRF cookie of the request is the one that its state was issued with, in time. -/
def CallbackRequest.BoundTo (signingKey : List UInt8) (issued : Set Issued) (now : I64)
    (request : CallbackRequest) (csrf : RandomString 22) : Prop :=
  readCookie request.cookies csrfCookieName = some csrf.chars ∧
    ∃ text issuedAt pkceVerifier, request.state = some text ∧
      .state issuedAt csrf pkceVerifier ∈ issued ∧
      Spells mac sha256 signingKey text (.state issuedAt csrf pkceVerifier) ∧
      -5 ≤ now.val - issuedAt.val ∧ now.val - issuedAt.val ≤ 600

/-- What the callback goes on with was issued for this use, with the same CSRF value. A workspace
in the place of an invite token is none. -/
def CallbackStep.BoundTo {ι : Type} (signingKey : List UInt8) (issued : Set Issued)
    (request : CallbackRequest) (csrf : RandomString 22) : CallbackStep ι → Prop
  | .loginFailure => True
  | .acceptInvite _ token =>
      ∃ cookie, readCookie request.cookies inviteCookieName = some cookie ∧
        ((∃ r : RandomString 48, r.chars = token ∧ .invite csrf r ∈ issued ∧
            Spells mac sha256 signingKey cookie (.invite csrf r)) ∨
          (∃ workspaceId, .workspace csrf workspaceId ∈ issued ∧
            Spells mac sha256 signingKey cookie (.workspace csrf workspaceId)) ∧
          isInviteToken token = false)
  | .signIn _ requestedWorkspace =>
      readCookie request.cookies inviteCookieName = none ∧
        (readCookie request.cookies workspaceCookieName = none ∧ requestedWorkspace = none ∨
          ∃ cookie, readCookie request.cookies workspaceCookieName = some cookie ∧
            .workspace csrf requestedWorkspace ∈ issued ∧
            Spells mac sha256 signingKey cookie (.workspace csrf requestedWorkspace))

end Functions

section Kinds

variable {mac : List UInt8 → List UInt8 → List UInt8} {sha256 : List UInt8 → List UInt8}
  {signingKey : List UInt8}

/-! ## The handlers issue these values -/

theorem spells_issueAt (issuedAt : I64) (csrf : RandomString 22) (pkceVerifier : RandomString 43) :
    Spells mac sha256 signingKey
      (issueAt mac sha256 signingKey issuedAt csrf pkceVerifier).state
      (.state issuedAt csrf pkceVerifier) :=
  ⟨_, rfl, lower_hex _⟩

theorem spells_boundCookie_workspace (csrf : RandomString 22) (workspaceId : Option Uuid) :
    Spells mac sha256 signingKey
      (boundCookie mac signingKey csrf.chars (selectionText workspaceId))
      (.workspace csrf workspaceId) :=
  ⟨_, rfl, lower_hex _⟩

theorem spells_boundCookie_invite (csrf : RandomString 22) (token : RandomString 48) :
    Spells mac sha256 signingKey (boundCookie mac signingKey csrf.chars token.chars)
      (.invite csrf token) :=
  ⟨_, rfl, lower_hex _⟩

theorem isInviteToken_iff {token : List Char} :
    isInviteToken token = true ↔ ∃ r : RandomString 48, r.chars = token := by
  rw [isInviteToken, Bool.and_eq_true, beq_iff_eq, List.all_eq_true]
  constructor
  · rintro ⟨hlength, hchars⟩
    exact ⟨⟨token, hlength, hchars⟩, rfl⟩
  · rintro ⟨r, rfl⟩
    exact ⟨r.length_eq, r.alphanumeric⟩

/-- The token of an invitation cookie has been checked. -/
theorem acceptInvite_eq_ok {secure : Bool} {csrf : RandomString 22} {inviteToken : List Char}
    {cookies : List (List Char)}
    (h : acceptInvite mac signingKey secure csrf inviteToken = .ok cookies) :
    ∃ (token : RandomString 48) (value : List Char), token.chars = inviteToken ∧
      setCookie inviteCookieName value secure ∈ cookies ∧
      Spells mac sha256 signingKey value (.invite csrf token) := by
  rw [acceptInvite] at h
  split_ifs at h with hinvalid
  cases h
  rw [Bool.not_eq_true', Bool.not_eq_false] at hinvalid
  obtain ⟨token, rfl⟩ := isInviteToken_iff.mp hinvalid
  exact ⟨token, _, rfl, List.mem_cons_of_mem _ List.mem_cons_self,
    spells_boundCookie_invite csrf token⟩

theorem mem_authorize (secure : Bool) (csrf : RandomString 22) (workspaceId : Option Uuid) :
    ∃ value, setCookie workspaceCookieName value secure ∈
        authorize mac signingKey secure csrf workspaceId ∧
      Spells mac sha256 signingKey value (.workspace csrf workspaceId) :=
  ⟨_, List.mem_cons_of_mem _ (List.mem_cons_of_mem _ List.mem_cons_self),
    spells_boundCookie_workspace csrf workspaceId⟩

/-! ## Dots tell the kinds apart -/

theorem dot_notMem_selectionText (workspaceId : Option Uuid) :
    '.' ∉ selectionText workspaceId := by
  cases workspaceId with
  | none => exact List.not_mem_nil
  | some id =>
      intro hmem
      rcases Uuid.mem_toString hmem with h | ⟨d, hd, h⟩
      · cases h
      · have hvalue := Uuid.hexValue_digitChar d hd
        rw [← h] at hvalue
        cases hvalue

theorem count_dot_of_notMem {text : List Char} (h : '.' ∉ text) : text.count '.' = 0 :=
  List.count_eq_zero.mpr h

/-- A state has two dots, a cookie one. -/
theorem count_payload (sha256 : List UInt8 → List UInt8) (i : Issued) :
    (i.payload sha256).count '.' = match i with
      | .state .. => 2
      | _ => 1 := by
  cases i with
  | state issuedAt csrf pkceVerifier =>
      rw [Issued.payload, StateToken.payload, count_dotted, count_dotted,
        count_dot_of_notMem (dot_notMem_printI64 issuedAt),
        count_dot_of_notMem pkceVerifier.dot_notMem, hashCsrfCookie,
        count_dot_of_notMem (dot_notMem_hex _)]
  | invite csrf token =>
      rw [Issued.payload, count_dotted, count_dot_of_notMem csrf.dot_notMem,
        count_dot_of_notMem token.dot_notMem]
  | workspace csrf workspaceId =>
      rw [Issued.payload, count_dotted, count_dot_of_notMem csrf.dot_notMem,
        count_dot_of_notMem (dot_notMem_selectionText workspaceId)]

/-- A text whose signature is valid and not forged spells a value that was issued. -/
theorem exists_spells (hmac : Function.Injective (mac signingKey)) {issued : Set Issued}
    {payload signature : List Char}
    (hunforged : Unforged mac sha256 signingKey issued (dotted payload signature))
    (hsign : lower signature = sign mac signingKey (utf8 payload)) :
    ∃ i ∈ issued, payload = i.payload sha256 ∧
      Spells mac sha256 signingKey (dotted payload signature) i := by
  obtain ⟨i, hi, hissued⟩ := hunforged payload signature rfl hsign
  have hpayload : payload = i.payload sha256 :=
    utf8_injective (sign_injective hmac (hsign.symm.trans hissued))
  exact ⟨i, hi, hpayload, signature, by rw [hpayload], hissued⟩

/-- **What verifies as a state was issued as one.** -/
theorem exists_of_verifyAt (hmac : Function.Injective (mac signingKey)) {issued : Set Issued}
    {state : List Char} (hunforged : Unforged mac sha256 signingKey issued state) {now : I64}
    {v : VerifiedState} (h : verifyAt mac signingKey state now = some v) :
    ∃ issuedAt csrf pkceVerifier, .state issuedAt csrf pkceVerifier ∈ issued ∧
      Spells mac sha256 signingKey state (.state issuedAt csrf pkceVerifier) ∧
      v = { pkceVerifier := pkceVerifier.chars, csrfHash := hashCsrfCookie sha256 csrf.chars } ∧
      -5 ≤ now.val - issuedAt.val ∧ now.val - issuedAt.val ≤ 600 := by
  obtain ⟨issuedAtStr, signature, t, ha, hb, hc, rfl, hsign, hparse, hwindow⟩ :=
    verifyAt_eq_some_iff.mp h
  obtain ⟨i, hi, hpayload, hspells⟩ := exists_spells hmac hunforged hsign
  have hdots := count_payload sha256 i
  rw [← hpayload, StateToken.payload, count_dotted, count_dotted, count_dot_of_notMem ha,
    count_dot_of_notMem hb, count_dot_of_notMem hc] at hdots
  cases i with
  | invite csrf token => cases hdots
  | workspace csrf workspaceId => cases hdots
  | state issuedAt csrf pkceVerifier =>
      have hhash : '.' ∉ hashCsrfCookie sha256 csrf.chars := dot_notMem_hex _
      rw [StateToken.payload, Issued.payload, StateToken.payload,
        dotted_inj ha (dot_notMem_printI64 issuedAt), dotted_inj hb hhash] at hpayload
      obtain ⟨hissued, hcsrf, hverifier⟩ := hpayload
      rw [hissued, parseI64_printI64] at hparse
      rw [← Option.some.inj hparse] at hwindow
      refine ⟨issuedAt, csrf, pkceVerifier, hi, hspells, ?_, hwindow⟩
      rw [← hcsrf, ← hverifier]

/-! ## Cookies that are opened -/

theorem openCookie_eq_ok_iff {csrfCookieValue : Option (List Char)} {cookie content : List Char} :
    openCookie mac signingKey csrfCookieValue cookie = .ok content ↔
      ∃ csrf signature, csrfCookieValue = some csrf ∧ '.' ∉ csrf ∧
        cookie = dotted (dotted csrf content) signature ∧
        lower signature = sign mac signingKey (utf8 (dotted csrf content)) := by
  rw [openCookie]
  constructor
  · intro h
    cases hlast : Separated.rsplitOnce '.' cookie with
    | none => simp [hlast] at h
    | some cut =>
        obtain ⟨payload, signature⟩ := cut
        obtain ⟨-, hcookie⟩ := Separated.rsplitOnce_eq_some_iff.mp hlast
        simp only [hlast] at h
        cases hfirst : Separated.splitOnce '.' payload with
        | none => simp [hfirst] at h
        | some cut =>
            obtain ⟨csrf, rest⟩ := cut
            obtain ⟨hdot, hpayload⟩ := Separated.splitOnce_eq_some_iff.mp hfirst
            simp only [hfirst] at h
            split_ifs at h with hrefused
            cases h
            rw [not_or, not_not, not_not] at hrefused
            refine ⟨csrf, signature, hrefused.1, hdot, ?_, ?_⟩
            · rw [hcookie, hpayload, dotted, dotted]
            · rw [dotted, ← hpayload]
              exact verify_iff.mp hrefused.2
  · rintro ⟨csrf, signature, rfl, hdot, rfl, hsign⟩
    have hlast := Separated.rsplitOnce_append (dot_notMem_of_lower hsign) (dotted csrf content)
    have hfirst := Separated.splitOnce_append hdot content
    rw [← dotted] at hlast hfirst
    simp only [hlast, hfirst]
    rw [if_neg]
    rw [not_or, not_not, not_not]
    exact ⟨rfl, verify_iff.mpr hsign⟩

/-- **What is opened as a cookie was issued as one**, with the CSRF value at hand: that of a state,
which is longer than any time in one. -/
theorem exists_of_openCookie (hmac : Function.Injective (mac signingKey)) {issued : Set Issued}
    {cookie content csrfCookieValue : List Char}
    (hunforged : Unforged mac sha256 signingKey issued cookie)
    (hlength : csrfCookieValue.length = 22)
    (h : openCookie mac signingKey (some csrfCookieValue) cookie = .ok content) :
    (∃ csrf token, .invite csrf token ∈ issued ∧
        Spells mac sha256 signingKey cookie (.invite csrf token) ∧
        csrf.chars = csrfCookieValue ∧ content = token.chars) ∨
      ∃ csrf workspaceId, .workspace csrf workspaceId ∈ issued ∧
        Spells mac sha256 signingKey cookie (.workspace csrf workspaceId) ∧
        csrf.chars = csrfCookieValue ∧ content = selectionText workspaceId := by
  obtain ⟨csrf, signature, hcsrf, hdot, rfl, hsign⟩ := openCookie_eq_ok_iff.mp h
  cases hcsrf
  obtain ⟨i, hi, hpayload, hspells⟩ := exists_spells hmac hunforged hsign
  cases i with
  | state issuedAt csrf pkceVerifier =>
      rw [Issued.payload, StateToken.payload, dotted_inj hdot (dot_notMem_printI64 issuedAt)]
        at hpayload
      have hshort := length_printI64_le issuedAt
      rw [← hpayload.1] at hshort
      omega
  | invite csrf token =>
      rw [Issued.payload, dotted_inj hdot csrf.dot_notMem] at hpayload
      exact Or.inl ⟨csrf, token, hi, hspells, hpayload.1.symm, hpayload.2⟩
  | workspace csrf workspaceId =>
      rw [Issued.payload, dotted_inj hdot csrf.dot_notMem] at hpayload
      exact Or.inr ⟨csrf, workspaceId, hi, hspells, hpayload.1.symm, hpayload.2⟩

/-- A workspace is no invite token. -/
theorem isInviteToken_selectionText (workspaceId : Option Uuid) :
    isInviteToken (selectionText workspaceId) = false := by
  rw [isInviteToken, Bool.and_eq_false_iff]
  left
  cases workspaceId with
  | none => rfl
  | some id =>
      have hlength : (selectionText (some id)).length = 36 := id.length_toString
      rw [hlength]
      rfl

/-- An invite token is no workspace. -/
theorem parseStr_token (token : RandomString 48) :
    Uuid.parseStr (String.ofList token.chars) = none := by
  simp [Uuid.parseStr, token.length_eq]

theorem parseStr_selectionText (id : Uuid) :
    Uuid.parseStr (String.ofList (selectionText (some id))) = some id := by
  rw [selectionText, Option.map_some, Option.getD_some, String.ofList_toList,
    Uuid.parseStr_toString]

/-! ## The callback -/

variable {ι : Type} {exchange : List Char → List Char → Except YorishiroError ι} {now : I64}

theorem handleCallback_eq_ok {code state : List Char} {csrfCookieValue : Option (List Char)}
    {identity : ι}
    (h : handleCallback mac sha256 signingKey now exchange code state csrfCookieValue =
      .ok identity) :
    ∃ verified, verifyAt mac signingKey state now = some verified ∧
      csrfCookieValue.map (hashCsrfCookie sha256) = some verified.csrfHash := by
  rw [handleCallback] at h
  cases hverify : verifyAt mac signingKey state now with
  | none => simp [hverify] at h
  | some verified =>
      simp only [hverify] at h
      split_ifs at h with hhash
      exact ⟨verified, rfl, hhash⟩

theorem hashCsrfCookie_injective (hsha : Function.Injective sha256) :
    Function.Injective (hashCsrfCookie sha256) :=
  hex_injective.comp (hsha.comp utf8_injective)

/-- An issued value is not forged. -/
theorem Spells.unforged {issued : Set Issued} {i : Issued} (hi : i ∈ issued) {text : List Char}
    (h : Spells mac sha256 signingKey text i) : Unforged mac sha256 signingKey issued text := by
  intro payload signature htext hsign
  obtain ⟨s, rfl, hs⟩ := h
  have hlast := Separated.rsplitOnce_append (dot_notMem_of_lower hs) (i.payload sha256)
  rw [← dotted, htext, dotted, Separated.rsplitOnce_append (dot_notMem_of_lower hsign)] at hlast
  cases hlast
  exact ⟨i, hi, hs⟩

/-- A callback that goes past the state has the CSRF cookie that the state was issued with. -/
theorem boundTo_of_handleCallback (hmac : Function.Injective (mac signingKey))
    (hsha : Function.Injective sha256) {issued : Set Issued} {request : CallbackRequest}
    (hunforged : request.Unforged mac sha256 signingKey issued) {code text : List Char}
    (htext : request.state = some text) {identity : ι}
    (h : handleCallback mac sha256 signingKey now exchange code text
      (readCookie request.cookies csrfCookieName) = .ok identity) :
    ∃ csrf, request.BoundTo mac sha256 signingKey issued now csrf := by
  obtain ⟨verified, hverify, hhash⟩ := handleCallback_eq_ok h
  obtain ⟨issuedAt, csrf, pkceVerifier, hissued, hspells, rfl, hwindow⟩ :=
    exists_of_verifyAt hmac (hunforged.state text htext) hverify
  obtain ⟨value, hvalue, hsame⟩ := Option.map_eq_some_iff.mp hhash
  refine ⟨csrf, ?_, text, issuedAt, pkceVerifier, htext, hissued, hspells, hwindow⟩
  rw [hvalue, hashCsrfCookie_injective hsha hsame]

theorem acceptInvite_boundTo (hmac : Function.Injective (mac signingKey)) {issued : Set Issued}
    {request : CallbackRequest} (hunforged : request.Unforged mac sha256 signingKey issued)
    {csrf : RandomString 22} {cookie token : List Char}
    (hcookie : readCookie request.cookies inviteCookieName = some cookie)
    (h : openCookie mac signingKey (some csrf.chars) cookie = .ok token) (identity : ι) :
    (CallbackStep.acceptInvite identity token).BoundTo mac sha256 signingKey issued request
      csrf := by
  refine ⟨cookie, hcookie, ?_⟩
  rcases exists_of_openCookie hmac (hunforged.invite cookie hcookie) csrf.length_eq h with
    ⟨c, r, hissued, hspells, hcsrf, rfl⟩ | ⟨c, workspaceId, hissued, hspells, hcsrf, rfl⟩
  · rw [RandomString.ext hcsrf] at hissued hspells
    exact Or.inl ⟨r, rfl, hissued, hspells⟩
  · rw [RandomString.ext hcsrf] at hissued hspells
    exact Or.inr ⟨⟨workspaceId, hissued, hspells⟩, isInviteToken_selectionText workspaceId⟩

/-- A printed selection is read back. -/
theorem eq_of_readSelection {workspaceId requestedWorkspace : Option Uuid}
    (h : selectionText workspaceId = [] ∧ requestedWorkspace = none ∨
      ∃ id, Uuid.parseStr (String.ofList (selectionText workspaceId)) = some id ∧
        requestedWorkspace = some id) : requestedWorkspace = workspaceId := by
  cases workspaceId with
  | none =>
      rcases h with ⟨-, rfl⟩ | ⟨id, hid, -⟩
      · rfl
      · cases hid
  | some id =>
      rcases h with ⟨hempty, -⟩ | ⟨id', hid, rfl⟩
      · have hlength := id.length_toString
        rw [show id.toString.toList = [] from hempty] at hlength
        cases hlength
      · rw [parseStr_selectionText] at hid
        exact hid.symm

/-- The workspace of a cookie that is opened is the one it was issued for. -/
theorem workspace_boundTo (hmac : Function.Injective (mac signingKey)) {issued : Set Issued}
    {request : CallbackRequest} (hunforged : request.Unforged mac sha256 signingKey issued)
    {csrf : RandomString 22} {cookie workspace : List Char}
    (hcookie : readCookie request.cookies workspaceCookieName = some cookie)
    (h : openCookie mac signingKey (some csrf.chars) cookie = .ok workspace)
    {requestedWorkspace : Option Uuid}
    (hread : workspace = [] ∧ requestedWorkspace = none ∨
      ∃ id, Uuid.parseStr (String.ofList workspace) = some id ∧ requestedWorkspace = some id) :
    .workspace csrf requestedWorkspace ∈ issued ∧
      Spells mac sha256 signingKey cookie (.workspace csrf requestedWorkspace) := by
  rcases exists_of_openCookie hmac (hunforged.workspace cookie hcookie) csrf.length_eq h with
    ⟨c, r, -, -, -, rfl⟩ | ⟨c, workspaceId, hissued, hspells, hcsrf, rfl⟩
  · rcases hread with ⟨hempty, -⟩ | ⟨id, hid, -⟩
    · have hlength := r.length_eq
      rw [hempty] at hlength
      cases hlength
    · rw [parseStr_token] at hid
      cases hid
  · rw [RandomString.ext hcsrf] at hissued hspells
    rw [eq_of_readSelection hread]
    exact ⟨hissued, hspells⟩

/-- **The callback takes each value for what it was issued as.** -/
theorem callback_boundTo (hmac : Function.Injective (mac signingKey))
    (hsha : Function.Injective sha256) {issued : Set Issued} {request : CallbackRequest}
    (hunforged : request.Unforged mac sha256 signingKey issued) {step : CallbackStep ι}
    (h : callback mac sha256 signingKey now exchange request = .ok step) :
    step = .loginFailure ∨ ∃ csrf, request.BoundTo mac sha256 signingKey issued now csrf ∧
      step.BoundTo mac sha256 signingKey issued request csrf := by
  rw [callback] at h
  split_ifs at h with herror
  · cases h
    exact Or.inl rfl
  cases hcode : request.code with
  | none =>
      simp only [hcode, Except.ok.injEq] at h
      exact Or.inl h.symm
  | some code =>
      cases hstate : request.state with
      | none =>
          simp only [hcode, hstate, Except.ok.injEq] at h
          exact Or.inl h.symm
      | some text =>
          simp only [hcode, hstate] at h
          obtain ⟨identity, hidentity, h⟩ := Except.bind_eq_ok.mp h
          obtain ⟨csrf, hbound⟩ := boundTo_of_handleCallback hmac hsha hunforged hstate hidentity
          rw [hbound.1] at h
          refine Or.inr ⟨csrf, hbound, ?_⟩
          cases hinvite : readCookie request.cookies inviteCookieName with
          | some cookie =>
              simp only [hinvite] at h
              obtain ⟨token, htoken, h⟩ := Except.bind_eq_ok.mp h
              cases h
              exact acceptInvite_boundTo hmac hunforged hinvite htoken identity
          | none =>
              simp only [hinvite] at h
              cases hworkspace : readCookie request.cookies workspaceCookieName with
              | none =>
                  simp only [hworkspace] at h
                  cases h
                  exact ⟨hinvite, Or.inl ⟨hworkspace, rfl⟩⟩
              | some cookie =>
                  simp only [hworkspace] at h
                  obtain ⟨workspace, hopened, h⟩ := Except.bind_eq_ok.mp h
                  split_ifs at h with hempty
                  · cases h
                    have hread := workspace_boundTo hmac hunforged hworkspace hopened
                      (Or.inl ⟨List.isEmpty_iff.mp hempty, rfl⟩)
                    exact ⟨hinvite, Or.inr ⟨cookie, hworkspace, hread⟩⟩
                  · cases hid : Uuid.parseStr (String.ofList workspace) with
                    | none => simp [hid] at h
                    | some id =>
                        simp only [hid] at h
                        cases h
                        have hread := workspace_boundTo hmac hunforged hworkspace hopened
                          (Or.inr ⟨id, hid, rfl⟩)
                        exact ⟨hinvite, Or.inr ⟨cookie, hworkspace, hread⟩⟩

end Kinds

/-- **States and cookies are bound and not interchangeable.** An issued state verifies in its window.
What verifies carries its signature, and where that is not forged it is a state that was issued. The
callback takes a signed value only for what it was issued as, with the CSRF value it was issued
with. -/
theorem oauth_bound (mac : List UInt8 → List UInt8 → List UInt8) (sha256 : List UInt8 → List UInt8)
    (signingKey : List UInt8) (hmac : Function.Injective (mac signingKey))
    (hsha : Function.Injective sha256) :
    (∀ issuedAt now csrf pkceVerifier,
      verifyAt mac signingKey (issueAt mac sha256 signingKey issuedAt csrf pkceVerifier).state now =
        if -5 ≤ now.val - issuedAt.val ∧ now.val - issuedAt.val ≤ 600 then
          some
            { pkceVerifier := pkceVerifier.chars
              csrfHash := hashCsrfCookie sha256 csrf.chars }
        else none) ∧
    (∀ state now v, verifyAt mac signingKey state now = some v →
      ∃ payload signature, state = dotted payload signature ∧
        lower signature = sign mac signingKey (utf8 payload)) ∧
    (∀ issued state now v, Unforged mac sha256 signingKey issued state →
      verifyAt mac signingKey state now = some v →
      ∃ issuedAt csrf pkceVerifier, .state issuedAt csrf pkceVerifier ∈ issued ∧
        Spells mac sha256 signingKey state (.state issuedAt csrf pkceVerifier) ∧
        v = { pkceVerifier := pkceVerifier.chars, csrfHash := hashCsrfCookie sha256 csrf.chars } ∧
        -5 ≤ now.val - issuedAt.val ∧ now.val - issuedAt.val ≤ 600) ∧
    (∀ (ι : Type) (exchange : List Char → List Char → Except YorishiroError ι) issued request now
        (step : CallbackStep ι), request.Unforged mac sha256 signingKey issued →
      callback mac sha256 signingKey now exchange request = .ok step →
      step = .loginFailure ∨ ∃ csrf, request.BoundTo mac sha256 signingKey issued now csrf ∧
        step.BoundTo mac sha256 signingKey issued request csrf) := by
  refine ⟨verifyAt_issueAt, ?_, fun issued state now v hunforged h => ?_,
    fun ι exchange issued request now step hunforged h => ?_⟩
  · intro state now v h
    obtain ⟨_, signature, _, -, -, -, hstate, hsign, -⟩ := verifyAt_eq_some_iff.mp h
    exact ⟨_, signature, hstate, hsign⟩
  · exact exists_of_verifyAt hmac hunforged h
  · exact callback_boundTo hmac hsha hunforged h

/-- The state of a sign-in, and the invitation for it. -/
def exampleIssued : Set Issued := {.state default default default, .invite default default}

/-- The request that comes back. -/
def exampleRequest : CallbackRequest where
  cookies := some ("ysr_oauth_csrf=".toList ++ (default : RandomString 22).chars ++
    "; ysr_oauth_invite=".toList ++
    boundCookie (fun _ payload => payload) [] (default : RandomString 22).chars
      (default : RandomString 48).chars)
  code := some []
  state := some (issueAt (fun _ payload => payload) id [] default default default).state
  error := none

theorem exampleRequest_unforged :
    exampleRequest.Unforged (fun _ payload => payload) id [] exampleIssued where
  state := by
    intro text h
    cases h
    exact (spells_issueAt default default default).unforged (Or.inl rfl)
  invite := by
    intro text h
    have hcookie : readCookie exampleRequest.cookies inviteCookieName =
        some (boundCookie (fun _ payload => payload) [] (default : RandomString 22).chars
          (default : RandomString 48).chars) := by
      set_option maxRecDepth 4096 in
      decide
    rw [hcookie] at h
    cases h
    exact (spells_boundCookie_invite default default).unforged (Or.inr rfl)
  workspace := by
    intro text h
    have hcookie : readCookie exampleRequest.cookies workspaceCookieName = none := by
      decide
    rw [hcookie] at h
    cases h

/-- The invitation is accepted, with the token that was issued. -/
theorem oauth_bound_example :
    verifyAt (fun _ payload => payload) []
        (issueAt (fun _ payload => payload) id [] default default default).state default =
      some
        { pkceVerifier := (default : RandomString 43).chars
          csrfHash := hashCsrfCookie id (default : RandomString 22).chars } ∧
    ∃ csrf, exampleRequest.BoundTo (fun _ payload => payload) id [] exampleIssued default csrf ∧
      (CallbackStep.acceptInvite () (default : RandomString 48).chars).BoundTo
        (fun _ payload => payload) id [] exampleIssued exampleRequest csrf := by
  have h := oauth_bound (fun _ payload => payload) id [] Function.injective_id
    Function.injective_id
  have haccepted : callback (fun _ payload => payload) id [] default (fun _ _ => .ok ())
      exampleRequest = .ok (.acceptInvite () (default : RandomString 48).chars) := by
    set_option maxRecDepth 4096 in
    decide
  refine ⟨(h.1 default default default default).trans (if_pos (by decide)), ?_⟩
  exact (h.2.2.2 Unit (fun _ _ => .ok ()) exampleIssued exampleRequest default _
    exampleRequest_unforged haccepted).resolve_left (by simp)

end Yorishiro.Http
