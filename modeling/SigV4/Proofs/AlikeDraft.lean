import Mathlib.Data.List.Perm.Basic
import SigV4.Proofs.CanonicalDraft
/-!
Drafts that are signed alike. A canonical request reads of a draft its method, the decoded path, the
pairs of its query in whatever order, and the octets under each name that is signed; so does the
choice of the payload hash. Order of names, flags of values and all that stands under an excluded
name are never read.
-/
namespace SigV4

namespace Headers

def octets (headers : Headers) (name : HeaderName) : List Bytes :=
  (headers.values name).map (·.octets)

theorem octets_eq_nil {headers : Headers} {name : HeaderName} :
    headers.octets name = [] ↔ headers.values name = [] :=
  List.map_eq_nil_iff

def Alike (excluded : List String) (left right : Headers) : Prop :=
  ∀ name, name.text ∉ excluded → left.octets name = right.octets name

/-- An excluded header leaves no trace among those that remain. -/
theorem insert_alike {excluded : List String} {name : HeaderName} (hidden : name.text ∈ excluded)
    (headers : Headers) (value : HeaderValue) :
    Alike excluded (headers.insert name value) headers := by
  intro other signed
  have different : name ≠ other := by
    rintro rfl
    exact signed hidden
  rw [octets, octets, values_insert, if_neg different]

theorem mem_namesExcept_iff {headers : Headers} {excluded : List String} {name : HeaderName} :
    name ∈ headers.namesExcept excluded ↔ name.text ∉ excluded ∧ headers.octets name ≠ [] := by
  rw [mem_namesExcept]
  apply and_congr_right
  intro _
  constructor
  · rintro ⟨value, entry⟩ nothing
    have found : value.octets ∈ headers.octets name :=
      List.mem_map_of_mem (List.mem_map.mpr ⟨_, List.mem_filter.mpr ⟨entry, by simp⟩, rfl⟩)
    rw [nothing] at found
    contradiction
  · intro present
    obtain ⟨octets, member⟩ := List.exists_mem_of_ne_nil _ present
    obtain ⟨value, held, _⟩ := List.mem_map.mp member
    obtain ⟨entry, kept, rfl⟩ := List.mem_map.mp held
    obtain ⟨inside, same⟩ := List.mem_filter.mp kept
    exact ⟨entry.2, of_decide_eq_true same ▸ inside⟩

theorem nodup_eraseDups (names : List HeaderName) : names.eraseDups.Nodup := by
  cases names with
  | nil => exact List.nodup_nil
  | cons first rest =>
      rw [List.eraseDups_cons, List.nodup_cons, List.mem_eraseDups]
      exact ⟨by simp, nodup_eraseDups _⟩
termination_by names.length
decreasing_by
  rw [List.length_cons]
  exact Nat.lt_succ_of_le (List.length_filter_le _ _)

theorem nodup_namesExcept (headers : Headers) (excluded : List String) :
    (headers.namesExcept excluded).Nodup :=
  (List.mergeSort_perm _ _).nodup_iff.mpr (nodup_eraseDups _)

theorem pairwise_namesExcept (headers : Headers) (excluded : List String) :
    (headers.namesExcept excluded).Pairwise fun left right =>
      Bytes.ofText left.text ≤ Bytes.ofText right.text := by
  have sorted : (headers.namesExcept excluded).Pairwise fun left right =>
      decide (Bytes.ofText left.text ≤ Bytes.ofText right.text) = true := by
    refine List.pairwise_mergeSort ?trans ?total _
    case trans =>
      intro first second third lower upper
      exact decide_eq_true (List.le_trans (of_decide_eq_true lower) (of_decide_eq_true upper))
    case total =>
      intro first second
      rw [Bool.or_eq_true, decide_eq_true_eq, decide_eq_true_eq]
      exact List.le_total _ _
  exact sorted.imp of_decide_eq_true

theorem eq_of_le_of_le {left right : HeaderName}
    (lower : Bytes.ofText left.text ≤ Bytes.ofText right.text)
    (upper : Bytes.ofText right.text ≤ Bytes.ofText left.text) : left = right :=
  HeaderName.ext_text (Bytes.ofText_injective (List.le_antisymm lower upper))

def Ascending (names : List HeaderName) : Prop :=
  names.Pairwise fun left right => Bytes.ofText left.text < Bytes.ofText right.text

instance (names : List HeaderName) : Decidable (Ascending names) :=
  inferInstanceAs (Decidable (List.Pairwise _ _))

theorem Ascending.nodup {names : List HeaderName} (ascending : Ascending names) : names.Nodup := by
  refine List.Pairwise.imp ?different ascending
  rintro first second lower rfl
  exact List.lt_irrefl _ lower

/-- The order of names is total, so an ascending list is known from what is in it. -/
theorem Ascending.eq_of_mem_iff {left right : List HeaderName} (lower : Ascending left)
    (upper : Ascending right) (members : ∀ name, name ∈ left ↔ name ∈ right) : left = right := by
  have perm : left.Perm right := (List.perm_ext_iff_of_nodup lower.nodup upper.nodup).mpr members
  refine List.Perm.eq_of_pairwise ?antisymm lower upper perm
  exact fun first second _ _ less more => absurd (List.lt_trans less more) (List.lt_irrefl _)

theorem ascending_namesExcept (headers : Headers) (excluded : List String) :
    Ascending (headers.namesExcept excluded) := by
  refine (headers.pairwise_namesExcept excluded).imp₂ ?strict (headers.nodup_namesExcept excluded)
  intro first second lower different
  exact List.not_le.mp fun upper => different (eq_of_le_of_le lower upper)

theorem namesExcept_congr {excluded : List String} {left right : Headers}
    (alike : Alike excluded left right) :
    left.namesExcept excluded = right.namesExcept excluded := by
  refine (left.ascending_namesExcept excluded).eq_of_mem_iff (right.ascending_namesExcept excluded) ?_
  intro name
  rw [mem_namesExcept_iff, mem_namesExcept_iff]
  exact and_congr_right fun signed => by rw [alike name signed]

theorem namesExcept_eq {headers : Headers} {excluded : List String} {names : List HeaderName}
    (ascending : Ascending names)
    (listed : ∀ name ∈ names, name.text ∉ excluded ∧ name ∈ headers.entries.map (·.1))
    (complete : ∀ name ∈ headers.entries.map (·.1), name.text ∉ excluded → name ∈ names) :
    headers.namesExcept excluded = names := by
  refine (headers.ascending_namesExcept excluded).eq_of_mem_iff ascending fun name => ?_
  have entered : name ∈ headers.entries.map (·.1) ↔ ∃ value, (name, value) ∈ headers.entries := by
    simp
  rw [mem_namesExcept, ← entered]
  exact ⟨fun both => complete name both.2 both.1, listed name⟩

end Headers

namespace Draft

def readOctets (octets : Bytes) : Except Fault String :=
  if octets.all isReadableByte then .ok (Bytes.asciiText octets) else .error .headerValueUnreadable

theorem readValue_eq (value : HeaderValue) : readValue value = readOctets value.octets := by
  unfold readValue HeaderValue.readable? readOctets
  by_cases readable : value.octets.all isReadableByte = true
  · simp only [readable, if_true]
  · simp only [readable]
    rfl

theorem firstText?_eq (values : List HeaderValue) :
    firstText? values =
      match values.map (·.octets) with
      | octets :: _ => (readOctets octets).map some
      | [] => .ok none := by
  cases values with
  | nil => rfl
  | cons value rest => rw [firstText?, readValue_eq, List.map_cons]

theorem mapM_readValue (values : List HeaderValue) :
    values.mapM readValue = (values.map (·.octets)).mapM readOctets := by
  induction values with
  | nil => rfl
  | cons value rest ih => rw [List.map_cons, List.mapM_cons, List.mapM_cons, readValue_eq, ih]

variable {left right : Draft} {name : HeaderName}

theorem headerText?_congr (same : left.headers.octets name = right.headers.octets name) :
    left.headerText? name = right.headerText? name := by
  rw [Headers.octets, Headers.octets] at same
  rw [headerText?, headerText?, firstText?_eq, firstText?_eq, same]

theorem headerJoined_congr (same : left.headers.octets name = right.headers.octets name) :
    left.headerJoined name = right.headerJoined name := by
  rw [Headers.octets, Headers.octets] at same
  rw [headerJoined, headerJoined, joinedText, joinedText, mapM_readValue, mapM_readValue, same]

/-- Drafts of which the same is signed, as far as their payloads have one hash. -/
structure Alike (left right : Draft) : Prop where
  method : left.method = right.method
  path : left.decodedPath = right.decodedPath
  query : left.query.Perm right.query
  headers : left.headers.Alike Canonical.unsignedHeaders right.headers

end Draft

namespace PayloadStrategy

variable {left right : Draft}
  (same : left.headers.octets .amzContentSha256 = right.headers.octets .amzContentSha256)
include same

theorem fullHash_congr (body : Option Bytes) : fullHash left body = fullHash right body := by
  unfold fullHash
  rw [Draft.headerText?_congr same]

/-- Scheme and announced hash are all that the hash depends on, beside the body. -/
theorem resolve_congr (strategy : PayloadStrategy) (schemes : left.scheme = right.scheme)
    (body : Option Bytes) : strategy.resolve left body = strategy.resolve right body := by
  cases strategy with
  | full => exact fullHash_congr same body
  | unsignedOverTls =>
      have encrypted : left.isEncrypted = right.isEncrypted := by
        rw [Draft.isEncrypted, Draft.isEncrypted, schemes]
      simp only [resolve, encrypted, schemes, fullHash_congr same body]
  | streaming => rfl

end PayloadStrategy

namespace Canonical

theorem signedValues_congr {left right : Draft}
    (alike : left.headers.Alike unsignedHeaders right.headers) :
    signedValues left = signedValues right := by
  unfold signedValues
  rw [Headers.namesExcept_congr alike]
  apply Success.mapM_congr
  intro name member
  rw [Draft.headerJoined_congr (alike name (Headers.mem_namesExcept.mp member).1)]

/-- Alike drafts have one canonical request, or fail alike. -/
theorem ofDraft_congr {left right : Draft} (alike : left.Alike right) (hash : PayloadHash) :
    ofDraft left hash = ofDraft right hash := by
  rw [ofDraft_eq, ofDraft_eq, alike.method, alike.path, signedValues_congr alike.headers, queryText,
    queryText, sortedQuery_of_perm alike.query]

theorem headerJoined_absent {draft : Draft} {name : HeaderName}
    (absent : draft.headers.octets name = []) : draft.headerJoined name = .ok "" := by
  rw [Draft.headerJoined, Headers.octets_eq_nil.mp absent]
  rfl

/-- A draft can be signed if its path can be read, and every header that is signed. -/
theorem exists_ofDraft {draft : Draft} {hash : PayloadHash} :
    (∃ canonical, ofDraft draft hash = .ok canonical) ↔
      (∃ decoded, draft.decodedPath = .ok decoded) ∧
        ∀ name, name.text ∉ unsignedHeaders → ∃ text, draft.headerJoined name = .ok text := by
  constructor
  · rintro ⟨canonical, built⟩
    obtain ⟨decoded, headers, path, read, _⟩ := ofDraft_ok built
    rw [signedValues] at read
    refine ⟨⟨decoded, path⟩, fun name signed => ?_⟩
    by_cases absent : draft.headers.octets name = []
    · exact ⟨"", headerJoined_absent absent⟩
    · obtain ⟨header, _, found⟩ := Success.exists_of_mapM read
        (Headers.mem_namesExcept_iff.mpr ⟨signed, absent⟩)
      obtain ⟨text, joined, _⟩ := Success.map_ok.mp found
      exact ⟨text, joined⟩
  · rintro ⟨⟨decoded, path⟩, each⟩
    obtain ⟨headers, read⟩ : ∃ headers, signedValues draft = .ok headers := by
      apply Success.mapM_of_forall
      intro name member
      obtain ⟨text, joined⟩ := each name (Headers.mem_namesExcept.mp member).1
      exact ⟨(name, text), Success.map_ok.mpr ⟨text, joined, rfl⟩⟩
    refine ⟨⟨draft.method.text, pathText decoded, queryText draft.query, headers, hash.text⟩, ?_⟩
    rw [ofDraft_eq, path, read]
    rfl

end Canonical

end SigV4
