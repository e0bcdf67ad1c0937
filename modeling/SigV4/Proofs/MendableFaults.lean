import SigV4.Proofs.SignedRequest
/-!
The faults of a signing. Whatever is refused on the way, from the credential to the uri that is
written, is refused for something that the caller has passed in and can mend; no fault of a signing
is one of its own making.
-/
namespace SigV4

variable {ε α β : Type}

def Mendable (result : Except Fault α) : Prop :=
  ∀ fault, result = .error fault → fault.kind.isConfiguration = true

namespace Mendable

theorem ok (value : α) : Mendable (.ok value) := by
  intro fault failed
  contradiction

theorem error {fault : Fault} (known : fault.kind.isConfiguration = true) :
    Mendable (.error fault : Except Fault α) := by
  intro other failed
  exact Except.error.inj failed ▸ known

theorem bind {first : Except Fault α} {next : α → Except Fault β} (start : Mendable first)
    (rest : ∀ value, Mendable (next value)) : Mendable (first >>= next) := by
  cases first with
  | error fault => exact error (start fault rfl)
  | ok value => exact rest value

theorem map {result : Except Fault α} (mendable : Mendable result) (change : α → β) :
    Mendable (result.map change) := by
  cases result with
  | error fault => exact error (mendable fault rfl)
  | ok value => exact ok (change value)

theorem mapError {change : ε → Fault} (known : ∀ cause, (change cause).kind.isConfiguration = true)
    (result : Except ε α) : Mendable (result.mapError change) := by
  cases result with
  | error cause => exact error (known cause)
  | ok value => exact ok value

theorem mapM {step : α → Except Fault β} (each : ∀ item, Mendable (step item)) (items : List α) :
    Mendable (items.mapM step) := by
  induction items with
  | nil => exact ok []
  | cons item rest ih =>
      rw [List.mapM_cons]
      exact (each item).bind fun first => ih.bind fun tail => ok (first :: tail)

end Mendable

namespace Draft

theorem mendable_ofRequest (request : Request) : Mendable (ofRequest request) := by
  unfold ofRequest
  split
  · exact .error rfl
  · exact .ok _

theorem mendable_setHeader (draft : Draft) (name : HeaderName) (text : String) (sensitive : Bool) :
    Mendable (draft.setHeader name text sensitive) := by
  unfold setHeader
  split
  · exact .ok _
  · exact .error rfl

theorem mendable_readValue (value : HeaderValue) : Mendable (readValue value) := by
  unfold readValue
  split
  · exact .ok _
  · exact .error rfl

theorem mendable_headerText? (draft : Draft) (name : HeaderName) :
    Mendable (draft.headerText? name) := by
  unfold headerText?
  cases draft.headers.values name with
  | nil => exact .ok none
  | cons value rest => exact (mendable_readValue value).map some

theorem mendable_headerJoined (draft : Draft) (name : HeaderName) :
    Mendable (draft.headerJoined name) :=
  (Mendable.mapM mendable_readValue _).map _

theorem mendable_decodedPath (draft : Draft) : Mendable draft.decodedPath :=
  .mapError (fun _ => rfl) _

theorem mendable_finish (draft : Draft) : Mendable draft.finish :=
  (Mendable.mapError (fun _ => rfl) _).bind fun _ =>
    (Mendable.mapError (fun _ => rfl) _).bind fun _ => .ok _

end Draft

namespace PayloadStrategy

theorem mendable_fullHash (draft : Draft) (body : Option Bytes) :
    Mendable (fullHash draft body) := by
  refine (draft.mendable_headerText? _).bind fun announced => ?_
  cases announced with
  | some text => exact .ok _
  | none =>
      cases body with
      | some octets => exact .ok _
      | none => exact .error rfl

theorem mendable_resolve (strategy : PayloadStrategy) (draft : Draft) (body : Option Bytes) :
    Mendable (strategy.resolve draft body) := by
  cases strategy with
  | full => exact mendable_fullHash draft body
  | unsignedOverTls =>
      simp only [resolve]
      split
      · exact .ok _
      · exact .mapError (fun _ => rfl) _
  | streaming => exact .ok _

end PayloadStrategy

theorem Canonical.mendable_ofDraft (draft : Draft) (hash : PayloadHash) :
    Mendable (ofDraft draft hash) :=
  draft.mendable_decodedPath.bind fun _ =>
    (Mendable.mapM draft.mendable_headerJoined _).bind fun _ => .ok _

namespace Signer

theorem mendable_check (signer : Signer) (credential : Credential) (placement : Placement) :
    Mendable (signer.check credential placement) := by
  unfold check
  split
  · exact .error rfl
  split
  · exact .ok ()
  split
  · exact .error rfl
  split
  · exact .error rfl
  · exact .ok ()

theorem mendable_withHost (draft : Draft) : Mendable (withHost draft) := by
  unfold withHost
  split
  · exact .ok draft
  · exact draft.mendable_setHeader _ _ _

theorem mendable_withToken (draft : Draft) (credential : Credential) :
    Mendable (withToken draft credential) := by
  unfold withToken
  split
  · exact draft.mendable_setHeader _ _ _
  · exact .ok draft

theorem mendable_announceHash (signer : Signer) (draft : Draft) (hash : PayloadHash) :
    Mendable (signer.announceHash draft hash) := by
  unfold announceHash
  split
  · exact draft.mendable_setHeader _ _ _
  · exact .ok draft

theorem mendable_presignedHash (draft : Draft) : Mendable (presignedHash draft) := by
  refine (draft.mendable_headerText? _).bind fun announced => ?_
  cases announced with
  | some text => exact .ok _
  | none => exact .ok _

theorem mendable_prepare (signer : Signer) (request : Request) (body : Option Bytes)
    (credential : Credential) (placement : Placement) (scope : Scope) :
    Mendable (signer.prepare request body credential placement scope) := by
  refine (Draft.mendable_ofRequest request).bind fun source => ?_
  refine (mendable_withHost _).bind fun draft => ?_
  cases placement with
  | header =>
      refine (draft.mendable_setHeader _ _ _).bind fun dated => ?_
      refine (mendable_withToken dated credential).bind fun tokened => ?_
      refine (signer.strategy.mendable_resolve tokened body).bind fun hash => ?_
      exact (signer.mendable_announceHash tokened hash).bind fun _ => .ok _
  | query expiry => exact (mendable_presignedHash _).bind fun _ => .ok _

theorem mendable_place (draft : Draft) (credential : Credential) (placement : Placement)
    (scope : Scope) (canonical : Canonical) :
    Mendable (place draft credential placement scope canonical) := by
  cases placement with
  | header => exact (Draft.mendable_setHeader _ _ _ _).bind fun sealed => sealed.mendable_finish
  | query expiry => exact Draft.mendable_finish _

theorem mendable_signAt (signer : Signer) (request : Request) (body : Option Bytes)
    (credential : Credential) (placement : Placement) (time : Instant) :
    Mendable (signer.signAt request body credential placement time).2 := by
  rcases signAt_cases signer request body credential placement time with
    ⟨fault, unprepared | ⟨draft, hash, _, unbuilt⟩, failed⟩ |
      ⟨draft, hash, canonical, prepared, built⟩
  · rw [failed]
    exact .error (signer.mendable_prepare request body credential placement _ fault unprepared)
  · rw [failed]
    exact .error (Canonical.mendable_ofDraft draft hash fault unbuilt)
  · rw [signAt_eq prepared built]
    exact (mendable_place draft credential placement _ canonical).map _

/-- A signing that fails, in a header or in the query, fails by its input. -/
theorem mendable_sign (signer : Signer) (request : Request) (body : Option Bytes)
    (credential : Credential) (placement : Placement) (clock : Clock) :
    Mendable (signer.sign request body credential placement clock).result := by
  unfold sign
  split
  · next fault failed => exact .error (signer.mendable_check credential placement fault failed)
  · have signed := signer.mendable_signAt request body credential placement clock.now
    split
    · exact .ok _
    · next log fault failed => exact .error (signed fault (by rw [failed]))

end Signer

end SigV4
