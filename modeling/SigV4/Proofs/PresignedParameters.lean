import SigV4.Proofs.InPlace
import SigV4.Proofs.SignedNames
/-!
The parameters of a presigned uri. Presigning adds its own to the query and takes none away, so a
name stands for what the request had under it and for what this signing says, in that order or
another. A request that is presigned again keeps the old parameters beside the new ones.
-/
namespace SigV4

namespace Draft

/-- The pairs that a table asks for. A row without a value asks for none. -/
def spread (table : List (String × Option String)) : List (String × String) :=
  table.flatMap fun row => row.2.toList.map (row.1, ·)

theorem names_spread {table : List (String × Option String)} {name : String}
    (named : name ∈ (spread table).map (·.1)) : name ∈ table.map (·.1) := by
  obtain ⟨pair, member, rfl⟩ := List.mem_map.mp named
  obtain ⟨row, listed, made⟩ := List.mem_flatMap.mp member
  obtain ⟨value, _, rfl⟩ := List.mem_map.mp made
  exact List.mem_map_of_mem listed

theorem valuesOf_row (name : String) (row : String × Option String) :
    valuesOf name (row.2.toList.map (row.1, ·)) =
      if row.1 = name then row.2.toList else [] := by
  by_cases same : row.1 = name
  · cases named : row.2 with
    | none => simp [valuesOf]
    | some value => simp [valuesOf, same]
  · simp [valuesOf, same]

theorem valuesOf_spread {table : List (String × Option String)}
    (distinct : (table.map (·.1)).Nodup) {row : String × Option String} (member : row ∈ table) :
    valuesOf row.1 (spread table) = row.2.toList := by
  induction table with
  | nil => contradiction
  | cons first rest ih =>
      obtain ⟨apart, others⟩ := List.nodup_cons.mp distinct
      rw [spread, List.flatMap_cons, ← spread, valuesOf_append, valuesOf_row]
      rcases List.mem_cons.mp member with rfl | later
      · have absent : row.1 ∉ (spread rest).map (·.1) := fun named => apart (names_spread named)
        rw [if_pos rfl, valuesOf_absent absent, List.append_nil]
      · have different : first.1 ≠ row.1 := fun same =>
          apart (List.mem_map.mpr ⟨row, later, same.symm⟩)
        rw [if_neg different, List.nil_append, ih others later]

theorem valuesOf_lasting {name : String} (spelled : name ≠ "") (pairs : List (String × String)) :
    valuesOf name (lasting pairs) = valuesOf name pairs := by
  rw [valuesOf, lasting, List.filter_filter, valuesOf]
  congr 1
  refine List.filter_congr fun pair _ => ?_
  have kept : pair.1 = name → pair ≠ ("", "") := by
    rintro rfl rfl
    exact spelled rfl
  simpa using kept

/-- The octets that a pair takes when it is escaped, with an equals sign and an ampersand. -/
def weight (pair : String × String) : Nat :=
  (Canonical.encodePair pair).1.utf8ByteSize + (Canonical.encodePair pair).2.utf8ByteSize + 2

theorem size_sortedQuery (draft : Draft) (pairs : List (String × String)) :
    querySize { draft with query := Canonical.sortedQuery pairs } +
      2 * (Canonical.sortedQuery pairs).length = (pairs.map weight).sum := by
  have sum : ∀ query : List (String × String),
      querySize { draft with query := query } + 2 * query.length =
        (query.map fun pair => pair.1.utf8ByteSize + pair.2.utf8ByteSize + 2).sum := by
    intro query
    unfold querySize
    induction query with
    | nil => rfl
    | cons pair rest ih =>
        simp only [List.foldr_cons, List.length_cons, List.map_cons, List.sum_cons, ← ih]
        omega
  rw [sum, ← Canonical.map_sortedPairs, List.map_map]
  exact ((Canonical.sortedPairs_perm pairs).map weight).sum_eq

theorem valuesOf_eq_nil {name : String} {pairs : List (String × String)} :
    valuesOf name pairs = [] ↔ ∀ pair ∈ pairs, pair.1 ≠ name := by
  simp [valuesOf]

end Draft

namespace Request

/-- Each parameter of a table has its value and no other, and none if it is to have none. -/
def Unambiguous (request : Request) (table : List (String × Option String)) : Prop :=
  ∀ row ∈ table, Draft.valuesOf row.1 request.uri.pathAndQuery.pairs = row.2.toList

def Unmarked (request : Request) : Prop :=
  ∀ pair ∈ request.uri.pathAndQuery.pairs, pair.1 ∉ Signer.signatureName :: Signer.parameterNames

end Request

namespace SigningOutput

def table (output : SigningOutput) (credential : Credential) (expiry : Nat) :
    List (String × Option String) :=
  [("X-Amz-Algorithm", some "AWS4-HMAC-SHA256"),
   ("X-Amz-Credential", some (Signer.credentialText credential output.scope)),
   ("X-Amz-Date", some output.scope.datetime),
   ("X-Amz-Expires", some (toString expiry)),
   ("X-Amz-SignedHeaders", some output.signedHeaders),
   ("X-Amz-Security-Token", credential.sessionToken),
   ("X-Amz-Signature", some output.signature)]

variable {output : SigningOutput} {credential : Credential} {expiry : Nat} {request : Request}

theorem names_table (output : SigningOutput) (credential : Credential) (expiry : Nat) :
    (output.table credential expiry).map (·.1) =
      Signer.parameterNames ++ [Signer.signatureName] := rfl

theorem distinct_table (output : SigningOutput) (credential : Credential) (expiry : Nat) :
    ((output.table credential expiry).map (·.1)).Nodup := by
  rw [names_table]
  decide

theorem mem_names_table {name : String} :
    name ∈ Signer.signatureName :: Signer.parameterNames ↔
      ∃ row ∈ output.table credential expiry, row.1 = name := by
  rw [← List.mem_map, names_table, List.mem_append, List.mem_cons, List.mem_singleton, or_comm]

theorem named_of_mem_table {row : String × Option String}
    (listed : row ∈ output.table credential expiry) : row.1 ≠ "" := by
  have reserved : row.1 ∈ Signer.signatureName :: Signer.parameterNames :=
    mem_names_table.mpr ⟨row, listed, rfl⟩
  intro blank
  exact absurd (blank ▸ reserved) (by decide)

theorem unmarked_iff (output : SigningOutput) (credential : Credential) (expiry : Nat) :
    request.Unmarked ↔
      ∀ row ∈ output.table credential expiry,
        Draft.valuesOf row.1 request.uri.pathAndQuery.pairs = [] := by
  simp only [Draft.valuesOf_eq_nil]
  constructor
  · intro unmarked row listed pair member same
    exact unmarked pair member (mem_names_table.mpr ⟨row, listed, same.symm⟩)
  · intro free pair member named
    obtain ⟨row, listed, same⟩ := mem_names_table.mp named
    exact free row listed pair member same.symm

theorem spread_table {draft : Draft} {canonical : Canonical}
    (listed : output.signedHeaders =
      Canonical.namesText (draft.headers.namesExcept Canonical.unsignedHeaders))
    (signed : output.signature = Signer.signature credential output.scope canonical) :
    Draft.spread (output.table credential expiry) =
      Signer.addedPairs draft credential expiry output.scope canonical := by
  unfold Draft.spread table Signer.addedPairs Signer.parameters
  rw [listed, signed]
  cases credential.sessionToken with
  | none => rfl
  | some token => rfl

end SigningOutput

/-- What presigning adds to a query are the rows of the table that have a value. -/
theorem Signer.pairs_of_done {signer : Signer} {request : Request} {body : Option Bytes}
    {credential : Credential} {expiry : Nat} {clock : Clock} {output : SigningOutput}
    (done : (signer.sign request body credential (.query expiry) clock).result = .ok output) :
    (signer.sign request body credential (.query expiry) clock).request.uri.pathAndQuery.pairs.Perm
      (Draft.lasting request.uri.pathAndQuery.pairs ++
        Draft.spread (output.table credential expiry)) := by
  obtain ⟨draft, hash, canonical, prepared, built, placed, signedHeaders, _, covered⟩ :=
    course_of_done done
  obtain ⟨source, taken, ready⟩ := prepare_query prepared
  obtain ⟨query, valid, spelled⟩ := Draft.ofRequest_ok taken
  rw [SigningOutput.spread_table (signedHeaders.trans (Canonical.signedHeaders_ofDraft built))
    covered.signature, ← query]
  exact pairs_of_presigned valid spelled ready placed

structure Presigning where
  signer : Signer
  body : Option Bytes
  credential : Credential
  expiry : Nat
  clock : Clock

namespace Presigning

def sign (call : Presigning) (request : Request) : Signing :=
  call.signer.sign request call.body call.credential (.query call.expiry) call.clock

/-- The request after calls in turn. A call that fails leaves it as it is. -/
def after (calls : List Presigning) (request : Request) : Request :=
  calls.foldl (fun request call => (call.sign request).request) request

def given : List Presigning → Request → List SigningOutput
  | [], _ => []
  | call :: rest, request =>
      (call.sign request).result.toOption.toList ++ given rest (call.sign request).request

variable {call : Presigning} {request : Request} {output : SigningOutput}

/-- A call that succeeds adds what its table asks for, and loses nothing that has a name. -/
theorem values_sign (done : (call.sign request).result = .ok output) :
    ∀ row ∈ output.table call.credential call.expiry,
      (Draft.valuesOf row.1 (call.sign request).request.uri.pathAndQuery.pairs).Perm
        (Draft.valuesOf row.1 request.uri.pathAndQuery.pairs ++ row.2.toList) := by
  intro row listed
  have values := Draft.valuesOf_perm (Signer.pairs_of_done done) row.1
  rwa [Draft.valuesOf_append, Draft.valuesOf_lasting (SigningOutput.named_of_mem_table listed),
    Draft.valuesOf_spread (output.distinct_table _ _) listed] at values

theorem perm_append_toList_iff {α : Type} {after before : List α} {value : Option α}
    (same : after.Perm (before ++ value.toList)) : after = value.toList ↔ before = [] := by
  constructor
  · rintro rfl
    simpa using same.length_eq
  · rintro rfl
    cases value with
    | none => exact List.perm_nil.mp same
    | some value => exact List.perm_singleton.mp same

theorem unambiguous_sign (done : (call.sign request).result = .ok output) :
    (call.sign request).request.Unambiguous (output.table call.credential call.expiry) ↔
      request.Unmarked := by
  rw [output.unmarked_iff call.credential call.expiry]
  exact forall₂_congr fun row listed => perm_append_toList_iff (values_sign done row listed)

/-- A request that was presigned holds a signature. -/
theorem marked_of_done (done : (call.sign request).result = .ok output) :
    ¬ (call.sign request).request.Unmarked := by
  intro unmarked
  have listed : ("X-Amz-Signature", some output.signature) ∈
      output.table call.credential call.expiry := by simp [SigningOutput.table]
  have values := values_sign done _ listed
  rw [(output.unmarked_iff _ _).mp unmarked _ listed] at values
  simpa using values.length_eq

/-- After calls in turn no parameter is left just if there was none and none of them has
succeeded. -/
theorem unmarked_after (calls : List Presigning) (request : Request) :
    (after calls request).Unmarked ↔ request.Unmarked ∧ given calls request = [] := by
  induction calls generalizing request with
  | nil => simp [after, given]
  | cons call rest ih =>
      have step : after (call :: rest) request = after rest (call.sign request).request := rfl
      rw [step, ih, given]
      cases result : (call.sign request).result with
      | error fault =>
          have kept : (call.sign request).request = request := Signer.request_of_failed result
          rw [kept]
          rfl
      | ok output => simp [marked_of_done result, Except.toOption]

/-- Every parameter that a call finds stays beside its own. It leaves one set of them just if the
request came without any, and none of the calls before it has presigned the request. -/
theorem unambiguous_iff_first (calls : List Presigning) (last : Presigning) (signing : Signing)
    (called : last.sign (after calls request) = signing) (done : signing.result = .ok output) :
    (∀ row ∈ output.table last.credential last.expiry,
      (Draft.valuesOf row.1 signing.request.uri.pathAndQuery.pairs).Perm
        (Draft.valuesOf row.1 (after calls request).uri.pathAndQuery.pairs ++ row.2.toList)) ∧
    (signing.request.Unambiguous (output.table last.credential last.expiry) ↔
      request.Unmarked ∧ given calls request = []) := by
  subst called
  exact ⟨values_sign done, (unambiguous_sign done).trans (unmarked_after calls request)⟩

-- An invitation to a bucket, given out on a request for its root.
def invitation : Presigning := ⟨Signer.lister, none, Signer.listerKeys, 300, ⟨Instant.epoch, []⟩⟩

def visit : Request := Signer.errand .https .empty

def visitHeaders : Headers := ⟨[(.host, Signer.listingDraft.authority.hostValue)]⟩

def visitSource (query : List (String × String)) : Draft :=
  { Signer.errandSource .https visitHeaders with query := query }

def visitDraft (query : List (String × String)) : Draft :=
  { visitSource query with
    query := query ++
      Signer.parameters (visitSource query) Signer.listerKeys 300 Signer.parcelScope }

def visitCanonical (query : List (String × String)) : Canonical :=
  { Signer.errandCanonical [(.host, "bucket.test")] .unsigned with
    query := Canonical.queryText (visitDraft query).query }

variable {source : Draft} {query : List (String × String)}

theorem prepare_visit (taken : Draft.ofRequest request = .ok source)
    (hosted : source.hosted = visitSource query) :
    Signer.lister.prepare request none Signer.listerKeys (.query 300) Signer.parcelScope =
      .ok (visitDraft query, .unsigned) := by
  rw [Signer.prepare_query_eq, taken]
  simp only [bind, Except.bind, hosted]
  rfl

theorem ofDraft_visit (query : List (String × String)) :
    Canonical.ofDraft (visitDraft query) .unsigned = .ok (visitCanonical query) := by
  have names : visitHeaders.namesExcept Canonical.unsignedHeaders = [.host] :=
    Headers.namesExcept_eq (by decide +kernel) (by decide +kernel) (by decide +kernel)
  have path : (visitDraft query).decodedPath = .ok "/" := by
    unfold visitDraft visitSource
    cbv
  have headers : (visitDraft query).headers = visitHeaders := rfl
  have host : (visitDraft query).headerJoined .host = .ok "bucket.test" := by
    unfold Draft.headerJoined
    rw [headers]
    cbv
  simp only [Canonical.ofDraft, path, headers, names, List.mapM_cons, host, bind, Except.bind]
  rfl

theorem weight_signature (credential : Credential) (scope : Scope) (canonical : Canonical) :
    Draft.weight (Signer.signatureName, Signer.signature credential scope canonical) = 81 := by
  rw [Draft.weight, Signer.encodePair_signature, Signer.size_signature]
  rfl

theorem weight_signedPairs (pairs : List (String × String)) (text : String) :
    ((Signer.signedPairs pairs text).map Draft.weight).sum =
      (pairs.map Draft.weight).sum + Draft.weight (Signer.signatureName, text) := by
  rw [Signer.signedPairs, List.map_append, List.sum_append,
    ((Canonical.sortedPairs_perm pairs).map Draft.weight).sum_eq]
  rfl

theorem weight_parameters : ((visitDraft []).query.map Draft.weight).sum ≤ 1000 := by
  cbv

theorem weight_visitDraft (query : List (String × String)) :
    ((visitDraft query).query.map Draft.weight).sum ≤ (query.map Draft.weight).sum + 1000 := by
  have split : (visitDraft query).query = query ++ (visitDraft []).query := rfl
  rw [split, List.map_append, List.sum_append]
  exact Nat.add_le_add_left weight_parameters _

/-- An invitation is given out as long as there is room, and read back with all of its pairs. -/
theorem invited_of_taken (taken : Draft.ofRequest request = .ok source)
    (hosted : source.hosted = visitSource query)
    (room : (query.map Draft.weight).sum + 1082 ≤ PathAndQuery.maxLength) :
    ∃ output, (invitation.sign request).result = .ok output ∧
      Draft.weight (Signer.signatureName, output.signature) = 81 ∧
      Draft.ofRequest (invitation.sign request).request =
        .ok (visitSource (Draft.lasting
          (Signer.signedPairs (visitDraft query).query output.signature))) := by
  have weight := weight_visitDraft query
  have size := Draft.size_sortedQuery (visitDraft query) (visitDraft query).query
  have path : (visitDraft query).path.utf8ByteSize = 1 := rfl
  obtain ⟨signed, placed⟩ : ∃ signed, Signer.place (visitDraft query) Signer.listerKeys
      (.query 300) Signer.parcelScope (visitCanonical query) = .ok signed :=
    Signer.place_of_short rfl rfl (by omega)
  obtain ⟨done, left⟩ : (invitation.sign request).result = .ok _ ∧
      (invitation.sign request).request = signed :=
    Signer.sign_placed rfl (prepare_visit taken hosted) (ofDraft_visit query) placed
  have spelled : (visitDraft query).path ≠ "" := by
    intro blank
    simp [blank] at path
  have read := Draft.ofRequest_written (Signer.place_query placed) rfl spelled rfl
  exact ⟨_, done, weight_signature _ _ _, left ▸ read⟩

def visited : Signing := invitation.sign visit

def revisited : Signing := invitation.sign visited.request

theorem visits_signed : ∃ first second,
    visited.result = .ok first ∧ revisited.result = .ok second := by
  obtain ⟨first, done, signature, taken⟩ : ∃ first, visited.result = .ok first ∧
      Draft.weight (Signer.signatureName, first.signature) = 81 ∧
      Draft.ofRequest visited.request = .ok (visitSource (Draft.lasting
        (Signer.signedPairs (visitDraft []).query first.signature))) :=
    invited_of_taken rfl rfl (Nat.le_of_ble_eq_true rfl)
  have full : ("", "") ∉ (visitDraft []).query := Signer.full_parameters _ _ _ _
  rw [Draft.lasting_full (Signer.full_signedPairs full)] at taken
  have room : ((Signer.signedPairs (visitDraft []).query first.signature).map Draft.weight).sum +
      1082 ≤ PathAndQuery.maxLength := by
    rw [weight_signedPairs, signature]
    have held := Nat.add_le_add_right weight_parameters (81 + 1082)
    exact Nat.le_trans held (Nat.le_of_ble_eq_true rfl)
  have hosted : (visitSource (Signer.signedPairs (visitDraft []).query first.signature)).hosted =
      visitSource (Signer.signedPairs (visitDraft []).query first.signature) := rfl
  obtain ⟨second, again, _⟩ := invited_of_taken taken hosted room
  exact ⟨first, second, done, again⟩

theorem first_visit_unambiguous :
    ∃ output, visited.result = .ok output ∧
      visited.request.Unambiguous (output.table invitation.credential invitation.expiry) := by
  obtain ⟨first, _, done, _⟩ := visits_signed
  obtain ⟨_, unambiguous⟩ := unambiguous_iff_first [] invitation visited rfl done
  have unmarked : visit.Unmarked := by
    unfold Request.Unmarked
    decide
  exact ⟨first, done, unambiguous.mpr ⟨unmarked, rfl⟩⟩

/-- The second invitation holds the signatures of both. -/
theorem second_visit_ambiguous : ∃ first second,
    visited.result = .ok first ∧ revisited.result = .ok second ∧
    (Draft.valuesOf "X-Amz-Signature" revisited.request.uri.pathAndQuery.pairs).Perm
      [first.signature, second.signature] ∧
    ¬ revisited.request.Unambiguous (second.table invitation.credential invitation.expiry) := by
  obtain ⟨first, second, done, again⟩ := visits_signed
  have held : (Draft.valuesOf "X-Amz-Signature" visited.request.uri.pathAndQuery.pairs).Perm
      [first.signature] :=
    values_sign done ("X-Amz-Signature", some first.signature) (by simp [SigningOutput.table])
  have both : (Draft.valuesOf "X-Amz-Signature" revisited.request.uri.pathAndQuery.pairs).Perm
      (Draft.valuesOf "X-Amz-Signature" visited.request.uri.pathAndQuery.pairs ++
        [second.signature]) :=
    values_sign again ("X-Amz-Signature", some second.signature) (by simp [SigningOutput.table])
  refine ⟨first, second, done, again, both.trans (held.append_right _), ?_⟩
  intro alone
  exact marked_of_done done ((unambiguous_sign again).mp alone)

end Presigning
end SigV4
