import SigV4.Proofs.NormalHeaders
/-!
What the log of a signing tells of a credential. The canonical request is written to the log as it
is signed, and the token is a part of it: a header, or one of the parameters of the query. Two runs
that differ in the secret key and the token write the same scope, and the same canonical request
just if their tokens are the same: the secret enters neither record, and the token can be read back
from the second.
-/
namespace SigV4

namespace Log

def titled (title : String) (records : List Record) : List Record :=
  records.filter fun record => title.toList.isPrefixOf record.message.toList

theorem titled_nil (title : String) : titled title [] = [] := rfl

theorem titled_own (title text : String) (rest : List Record) :
    titled title (.debug (title ++ text) :: rest) =
      .debug (title ++ text) :: titled title rest := by
  simp [titled, Record.debug]

theorem titled_other {title other : String}
    (apart : ∀ text, title.toList.isPrefixOf (other.toList ++ text) = false) (text : String)
    (rest : List Record) :
    titled title (.debug (other ++ text) :: rest) = titled title rest := by
  simp [titled, Record.debug, apart]

theorem titled_injective (title : String) {left right : String} :
    [Record.debug (title ++ left)] = [Record.debug (title ++ right)] ↔ left = right := by
  simp [Record.debug]

end Log

namespace Signing

def scopeTitle : String := "calculated scope: "

def canonicalTitle : String := "calculated canonical request: "

def scopeRecords (signing : Signing) : List Log.Record := Log.titled scopeTitle signing.log

def canonicalRecords (signing : Signing) : List Log.Record := Log.titled canonicalTitle signing.log

variable {signing : Signing} {scope canonical stringToSign : String}

theorem scopeRecords_scope (log : signing.log = [.debug (scopeTitle ++ scope)]) :
    signing.scopeRecords = [.debug (scopeTitle ++ scope)] := by
  rw [scopeRecords, log, Log.titled_own, Log.titled_nil]

theorem canonicalRecords_scope (log : signing.log = [.debug (scopeTitle ++ scope)]) :
    signing.canonicalRecords = [] := by
  rw [canonicalRecords, log, Log.titled_other fun _ => rfl, Log.titled_nil]

section Whole

variable (log : signing.log = [.debug (scopeTitle ++ scope), .debug (canonicalTitle ++ canonical),
  .debug ("calculated string to sign: " ++ stringToSign)])
include log

theorem scopeRecords_whole : signing.scopeRecords = [.debug (scopeTitle ++ scope)] := by
  rw [scopeRecords, log, Log.titled_own, Log.titled_other fun _ => rfl,
    Log.titled_other fun _ => rfl, Log.titled_nil]

theorem canonicalRecords_whole :
    signing.canonicalRecords = [.debug (canonicalTitle ++ canonical)] := by
  rw [canonicalRecords, log, Log.titled_other fun _ => rfl, Log.titled_own,
    Log.titled_other fun _ => rfl, Log.titled_nil]

end Whole

end Signing

namespace Signer

variable {signer : Signer} {request : Request} {body : Option Bytes}
  {credential left right : Credential} {placement : Placement} {expiry : Nat} {scope : Scope}
  {draft leftDraft rightDraft : Draft} {hash leftHash rightHash : PayloadHash}
  {canonical : Canonical} {clock : Clock} {token leftToken rightToken : String}

/-- A log ends where its signing fails: before the scope, before the canonical request, or later. -/
theorem log_cases (signer : Signer) (request : Request) (body : Option Bytes)
    (credential : Credential) (placement : Placement) (clock : Clock) :
    (signer.sign request body credential placement clock).log = [] ∨
    (signer.sign request body credential placement clock).log =
      [.debug (Signing.scopeTitle ++ (signer.scope clock.now).text)] ∨
    ∃ draft hash canonical,
      signer.prepare request body credential placement (signer.scope clock.now) =
        .ok (draft, hash) ∧
      Canonical.ofDraft draft hash = .ok canonical ∧
      (signer.sign request body credential placement clock).log =
        [.debug (Signing.scopeTitle ++ (signer.scope clock.now).text),
         .debug (Signing.canonicalTitle ++ canonical.text),
         .debug ("calculated string to sign: " ++
           stringToSign (signer.scope clock.now) canonical)] := by
  cases allowed : signer.check credential placement with
  | error fault => simp only [sign, allowed, true_or]
  | ok =>
      rcases signAt_cases signer request body credential placement clock.now with
        ⟨fault, _, failed⟩ | ⟨draft, hash, canonical, prepared, built⟩
      · refine Or.inr (Or.inl ?_)
        rw [log_sign allowed, failed]
        rfl
      · have log := log_of_built allowed prepared built
        exact Or.inr (Or.inr ⟨draft, hash, canonical, prepared, built, log⟩)

theorem scopeRecords_sign (signer : Signer) (request : Request) (body : Option Bytes)
    (credential : Credential) (placement : Placement) (clock : Clock) :
    (signer.sign request body credential placement clock).scopeRecords = [] ∨
    (signer.sign request body credential placement clock).scopeRecords =
      [.debug (Signing.scopeTitle ++ (signer.scope clock.now).text)] := by
  rcases log_cases signer request body credential placement clock with
    log | log | ⟨_, _, _, _, _, log⟩
  · exact Or.inl (by rw [Signing.scopeRecords, log, Log.titled_nil])
  · exact Or.inr (Signing.scopeRecords_scope log)
  · exact Or.inr (Signing.scopeRecords_whole log)

theorem canonicalRecords_sign
    (told : (signer.sign request body credential placement clock).canonicalRecords ≠ []) :
    ∃ draft hash canonical,
      signer.prepare request body credential placement (signer.scope clock.now) =
        .ok (draft, hash) ∧
      Canonical.ofDraft draft hash = .ok canonical ∧
      (signer.sign request body credential placement clock).canonicalRecords =
        [.debug (Signing.canonicalTitle ++ canonical.text)] := by
  rcases log_cases signer request body credential placement clock with
    log | log | ⟨draft, hash, canonical, prepared, built, log⟩
  · exact absurd (by rw [Signing.canonicalRecords, log, Log.titled_nil]) told
  · exact absurd (Signing.canonicalRecords_scope log) told
  · exact ⟨draft, hash, canonical, prepared, built, Signing.canonicalRecords_whole log⟩

/-- Of a credential, preparing reads the access key and the token. -/
theorem prepare_congr (keys : left.accessKeyId = right.accessKeyId)
    (tokens : left.sessionToken = right.sessionToken) :
    signer.prepare request body left placement scope =
      signer.prepare request body right placement scope := by
  simp only [prepare, withToken, parameters, credentialText, keys, tokens]

theorem token_line (held : credential.sessionToken = some token)
    (prepared : signer.prepare request body credential .header scope = .ok (draft, hash))
    (built : Canonical.ofDraft draft hash = .ok canonical) :
    (.amzSecurityToken, token) ∈ canonical.headers := by
  obtain ⟨source, value, checksum, _, tokened, _, _, rfl⟩ := prepare_header_ok prepared
  obtain ⟨written, rfl, octets, _⟩ := Credential.tokenValue_some held tokened
  have alone := Draft.values_filled source
    ⟨source.authority.hostValue, scope.dateValue, some written, checksum⟩ .amzSecurityToken
  rw [Fill.values_token, Option.elim_some] at alone
  obtain ⟨line, joined, member⟩ := Canonical.line_of_present built (by decide)
    (alone.trans_ne (List.cons_ne_nil _ _))
  rw [Draft.headerJoined, alone] at joined
  obtain ⟨text, read, whole⟩ := Draft.joinedText_cons joined
  have same : text = token := Bytes.ofText_injective ((Draft.readValue_ok read).1.trans octets)
  rwa [whole.mpr rfl, same] at member

theorem token_parameter (held : credential.sessionToken = some token) (draft : Draft)
    (expiry : Nat) (scope : Scope) :
    Draft.valuesOf "X-Amz-Security-Token" (parameters draft credential expiry scope) = [token] :=
  valuesOf_parameters (by simp [parameters, held])

/-- One canonical request of two prepared drafts shows one token. -/
theorem token_of_canonical (leftHeld : left.sessionToken = some leftToken)
    (rightHeld : right.sessionToken = some rightToken)
    (leftPrepared : signer.prepare request body left placement scope = .ok (leftDraft, leftHash))
    (rightPrepared :
      signer.prepare request body right placement scope = .ok (rightDraft, rightHash))
    (leftBuilt : Canonical.ofDraft leftDraft leftHash = .ok canonical)
    (rightBuilt : Canonical.ofDraft rightDraft rightHash = .ok canonical) :
    leftToken = rightToken := by
  cases placement with
  | header =>
      have first := token_line leftHeld leftPrepared leftBuilt
      have second := token_line rightHeld rightPrepared rightBuilt
      obtain ⟨_, joined⟩ := (Canonical.mem_headers_iff leftBuilt).mp first
      obtain ⟨_, again⟩ := (Canonical.mem_headers_iff leftBuilt).mp second
      exact Except.ok.inj (joined.symm.trans again)
  | query expiry =>
      have queries := (Canonical.query_ofDraft leftBuilt).symm.trans
        (Canonical.query_ofDraft rightBuilt)
      obtain ⟨source, taken, _, rfl⟩ := prepare_query_ok leftPrepared
      obtain ⟨other, again, _, rfl⟩ := prepare_query_ok rightPrepared
      obtain rfl := Except.ok.inj (taken.symm.trans again)
      have pairs := Canonical.perm_of_sortedQuery (Canonical.sortedQuery_of_queryText queries)
      have values := Draft.valuesOf_perm ((List.perm_append_left_iff _).mp pairs)
        "X-Amz-Security-Token"
      rw [token_parameter leftHeld, token_parameter rightHeld] at values
      exact List.singleton_perm_singleton.mp values

/-- Two runs whose credentials differ in the secret key and in the token log the same scope. Both
show their tokens, so they log the same canonical request just if these are the same, whatever the
secrets are. -/
theorem logged_request_shows_token (keys : left.accessKeyId = right.accessKeyId)
    (leftHeld : left.sessionToken = some leftToken)
    (rightHeld : right.sessionToken = some rightToken) (first second : Signing)
    (firstCalled : signer.sign request body left placement clock = first)
    (secondCalled : signer.sign request body right placement clock = second) :
    (first.scopeRecords ≠ [] → second.scopeRecords ≠ [] →
      first.scopeRecords = second.scopeRecords) ∧
    (first.canonicalRecords ≠ [] → second.canonicalRecords ≠ [] →
      (first.canonicalRecords = second.canonicalRecords ↔ leftToken = rightToken)) := by
  subst firstCalled secondCalled
  constructor
  · intro told again
    have one := (scopeRecords_sign signer request body left placement clock).resolve_left told
    have other := (scopeRecords_sign signer request body right placement clock).resolve_left again
    rw [one, other]
  · intro told again
    obtain ⟨leftDraft, leftHash, leftCanonical, leftPrepared, leftBuilt, one⟩ :=
      canonicalRecords_sign told
    obtain ⟨rightDraft, rightHash, rightCanonical, rightPrepared, rightBuilt, other⟩ :=
      canonicalRecords_sign again
    rw [one, other, Log.titled_injective]
    constructor
    · intro text
      obtain rfl := Canonical.text_injective (Canonical.ofDraft_plain leftBuilt)
        (Canonical.ofDraft_plain rightBuilt) text
      exact token_of_canonical leftHeld rightHeld leftPrepared rightPrepared leftBuilt rightBuilt
    · rintro rfl
      rw [prepare_congr keys (leftHeld.trans rightHeld.symm), rightPrepared] at leftPrepared
      obtain ⟨rfl, rfl⟩ := Prod.mk.inj (Except.ok.inj leftPrepared)
      rw [Except.ok.inj (leftBuilt.symm.trans rightBuilt)]

-- The gapped errand, signed for another guest under the same access key.
def otherKeys : Credential := ⟨"AKID", "another", some "a/b+c=d&e"⟩

def otherGuest : Signing :=
  gappedSigner.sign (errand .https .empty) none otherKeys .header ⟨Instant.epoch, []⟩

def otherHeaders : Headers :=
  ⟨[(.host, listingDraft.authority.hostValue), (.amzDate, parcelScope.dateValue), parcelToken,
    unsignedHeader]⟩

def otherLines : List (HeaderName × String) :=
  [(.host, "bucket.test"), (.amzContentSha256, "UNSIGNED-PAYLOAD"), (.amzDate, "19700101T000000Z"),
    (.amzSecurityToken, "a/b+c=d&e")]

theorem otherGuest_signed : ∃ output authorized, otherGuest.result = .ok output ∧
    output.payloadHash = .unsigned ∧
    otherGuest.request = errand .https (otherHeaders.insert .authorization authorized) ∧
    otherGuest.Covers otherKeys output (errandCanonical otherLines .unsigned) := by
  have of : (errandFound .https .empty .unsigned (some parcelToken.2) (some unsignedHeader.2)).Of
      gappedSigner (errand .https .empty) none otherKeys := errand_found rfl rfl rfl rfl
  have names : otherHeaders.namesExcept Canonical.unsignedHeaders = otherLines.map (·.1) :=
    Headers.namesExcept_eq (by decide +kernel) (by decide +kernel) (by decide +kernel)
  exact errand_signed of (by decide +kernel) (ofDraft_errand names (by cbv)) (by decide)

def guestText (token : String) : String :=
  String.intercalate "\n"
    ["GET", "/", "", "host:bucket.test", "x-amz-content-sha256:UNSIGNED-PAYLOAD",
      "x-amz-date:19700101T000000Z", "x-amz-security-token:" ++ token, "",
      "host;x-amz-content-sha256;x-amz-date;x-amz-security-token", "UNSIGNED-PAYLOAD"]

theorem gapped_told : gapped.canonicalRecords =
    [.debug (Signing.canonicalTitle ++ guestText "a  b")] := by
  obtain ⟨output, _, _, _, _, covered⟩ := gapped_signed
  have text : (errandCanonical gappedLines .unsigned).text = guestText "a  b" := rfl
  rw [Signing.canonicalRecords_whole covered.log, text]

theorem otherGuest_told : otherGuest.canonicalRecords =
    [.debug (Signing.canonicalTitle ++ guestText "a/b+c=d&e")] := by
  obtain ⟨output, _, _, _, _, covered⟩ := otherGuest_signed
  have text : (errandCanonical otherLines .unsigned).text = guestText "a/b+c=d&e" := rfl
  rw [Signing.canonicalRecords_whole covered.log, text]

theorem guests_told_apart :
    gapped.scopeRecords ≠ [] ∧ gapped.scopeRecords = otherGuest.scopeRecords ∧
      gapped.canonicalRecords ≠ otherGuest.canonicalRecords := by
  obtain ⟨_, _, _, _, _, covered⟩ := gapped_signed
  obtain ⟨_, _, _, _, _, others⟩ := otherGuest_signed
  have told := Signing.scopeRecords_whole covered.log
  have again := Signing.scopeRecords_whole others.log
  have keys : gappedKeys.accessKeyId = otherKeys.accessKeyId := rfl
  obtain ⟨scopes, canonicals⟩ := logged_request_shows_token keys rfl rfl gapped otherGuest rfl rfl
  refine ⟨by simp [told], scopes (by simp [told]) (by simp [again]), ?_⟩
  rw [Ne, canonicals (by simp [gapped_told]) (by simp [otherGuest_told])]
  decide

/-- The log of either guest shows the token as it is. -/
theorem token_logged :
    gappedKeys.accessKeyId = otherKeys.accessKeyId ∧
      gapped.canonicalRecords = [.debug (Signing.canonicalTitle ++ guestText "a  b")] ∧
      otherGuest.canonicalRecords =
        [.debug (Signing.canonicalTitle ++ guestText "a/b+c=d&e")] ∧
      gapped.canonicalRecords ≠ otherGuest.canonicalRecords := by
  refine ⟨rfl, gapped_told, otherGuest_told, ?_⟩
  rw [gapped_told, otherGuest_told, Ne, Log.titled_injective]
  decide

end Signer

end SigV4
