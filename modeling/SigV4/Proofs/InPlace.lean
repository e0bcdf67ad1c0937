import SigV4.Proofs.SignedRequest
/-!
Signing of a request in place. The request and the clock are state here, and each write is a step
of its own: signing reads the request once, works on drafts, and writes only when nothing can fail
any more. What `Signer.sign` gives is what these steps come to, so a signing that fails leaves the
request as it was, whichever step it is that fails.
-/
namespace SigV4

/-- What a signing can change. Instants that are drawn are counted, since a clock at its last one
does not show it. -/
structure Store where
  request : Request
  clock : Clock
  drawn : Nat

abbrev Procedure := ExceptT Fault (StateM Store)

namespace Procedure

variable {α β : Type}

def perform (procedure : Procedure α) (store : Store) : Except Fault α × Store :=
  (ExceptT.run procedure).run store

def compute (result : Except Fault α) : Procedure α := ExceptT.mk (pure result)

def draw : Procedure Instant := do
  let store ← get
  set { store with clock := store.clock.tick, drawn := store.drawn + 1 }
  return store.clock.now

def write (change : Request → Request) : Procedure Unit :=
  modify fun store => { store with request := change store.request }

end Procedure

/-- Target and uri are put together first; then method, uri and headers are written. -/
def Draft.apply (draft : Draft) : Procedure Unit := do
  let target ← .compute ((PathAndQuery.parse (Bytes.ofText draft.target)).mapError .uri)
  let uri ← .compute
    ((Uri.ofParts (some draft.scheme) (some draft.authority) (some target)).mapError .uri)
  .write fun request => { request with method := draft.method }
  .write fun request => { request with uri := uri }
  .write fun request => { request with headers := draft.headers }

namespace Signer

def withSignature (draft : Draft) (credential : Credential) (placement : Placement)
    (scope : Scope) (canonical : Canonical) : Except Fault Draft :=
  let draft := { draft with query := Canonical.sortedQuery draft.query }
  match placement with
  | .header => draft.setHeader .authorization (authorization credential scope canonical) true
  | .query _ => .ok (draft.pushQuery "X-Amz-Signature" (signature credential scope canonical))

def signInPlace (signer : Signer) (body : Option Bytes) (credential : Credential)
    (placement : Placement) : Procedure SigningOutput := do
  .compute (signer.check credential placement)
  let scope := signer.scope (← .draw)
  let (draft, hash) ← .compute
    (signer.prepare (← get).request body credential placement scope)
  let canonical ← .compute (Canonical.ofDraft draft hash)
  let sealed ← .compute (withSignature draft credential placement scope canonical)
  sealed.apply
  return ⟨signature credential scope canonical, scope, canonical.signedHeaders, hash⟩

def Refuses (signer : Signer) (credential : Credential) (placement : Placement) : Prop :=
  credential.accessKeyId = "" ∨ credential.secretAccessKey = "" ∨
    ∃ expiry, placement = .query expiry ∧ (signer.strategy = .streaming ∨ 604800 < expiry)

end Signer

namespace Procedure

variable {α β : Type}

theorem perform_bind (first : Procedure α) (next : α → Procedure β) (store : Store) :
    (first >>= next).perform store =
      match first.perform store with
      | (.ok value, after) => (next value).perform after
      | (.error fault, after) => (.error fault, after) := by
  simp only [perform, ExceptT.run_bind, StateT.run_bind]
  rcases (ExceptT.run first).run store with ⟨fault | value, after⟩
  · rfl
  · rfl

@[simp] theorem perform_compute (result : Except Fault α) (store : Store) :
    (compute result).perform store = (result, store) := rfl

@[simp] theorem perform_get (store : Store) :
    (get : Procedure Store).perform store = (.ok store, store) := rfl

@[simp] theorem perform_draw (store : Store) :
    draw.perform store =
      (.ok store.clock.now, { store with clock := store.clock.tick, drawn := store.drawn + 1 }) :=
  rfl

@[simp] theorem perform_write (change : Request → Request) (store : Store) :
    (write change).perform store = (.ok (), { store with request := change store.request }) := rfl

def Silent (procedure : Procedure α) : Prop :=
  ∀ store, (procedure.perform store).2.request = store.request

def Sure (procedure : Procedure α) : Prop :=
  ∀ store, ∃ value, (procedure.perform store).1 = .ok value

/-- A procedure that leaves the request as it was if it fails. -/
def Cautious (procedure : Procedure α) : Prop :=
  ∀ store fault, (procedure.perform store).1 = .error fault →
    (procedure.perform store).2.request = store.request

theorem Silent.compute (result : Except Fault α) : Silent (compute result) := fun _ => rfl

theorem Silent.get : Silent (get : Procedure Store) := fun _ => rfl

theorem Silent.draw : Silent draw := fun _ => rfl

theorem Sure.write (change : Request → Request) : Sure (write change) := fun _ => ⟨(), rfl⟩

theorem Sure.pure (value : α) : Sure (pure value : Procedure α) := fun _ => ⟨value, rfl⟩

theorem Sure.bind {first : Procedure α} {next : α → Procedure β} (sure : Sure first)
    (later : ∀ value, Sure (next value)) : Sure (first >>= next) := by
  intro store
  obtain ⟨value, done⟩ := sure store
  rw [perform_bind]
  rcases ran : first.perform store with ⟨result, after⟩
  rw [ran] at done
  simp only at done
  subst done
  exact later value after

theorem Sure.cautious {procedure : Procedure α} (sure : Sure procedure) : Cautious procedure := by
  intro store fault failed
  obtain ⟨value, done⟩ := sure store
  rw [done] at failed
  contradiction

/-- What is done before the first write may fail, and what is done after it may not. -/
theorem Silent.bind {first : Procedure α} {next : α → Procedure β} (silent : Silent first)
    (later : ∀ value, Cautious (next value)) : Cautious (first >>= next) := by
  intro store fault failed
  have kept := silent store
  rw [perform_bind] at failed ⊢
  rcases ran : first.perform store with ⟨fault | value, after⟩
  · rw [ran] at kept
    exact kept
  · rw [ran] at kept failed
    exact (later value after fault failed).trans kept

theorem Cautious.bind {first : Procedure α} {next : α → Procedure β} (cautious : Cautious first)
    (later : ∀ value, Sure (next value)) : Cautious (first >>= next) := by
  intro store fault failed
  rw [perform_bind] at failed ⊢
  rcases ran : first.perform store with ⟨earlier | value, after⟩
  · have kept := cautious store earlier
    rw [ran] at kept
    exact kept rfl
  · rw [ran] at failed
    exact absurd failed (by
      obtain ⟨result, done⟩ := later value after
      rw [done]
      exact fun same => nomatch same)

end Procedure

open Procedure

theorem Draft.apply_cautious (draft : Draft) : Cautious draft.apply := by
  refine (Silent.compute _).bind fun target => ?_
  refine (Silent.compute _).bind fun uri => ?_
  apply Sure.cautious
  refine (Sure.write _).bind fun _ => ?_
  refine (Sure.write _).bind fun _ => ?_
  exact Sure.write _

theorem Signer.signInPlace_cautious (signer : Signer) (body : Option Bytes)
    (credential : Credential) (placement : Placement) :
    Cautious (signer.signInPlace body credential placement) := by
  refine (Silent.compute _).bind fun _ => ?_
  refine Silent.draw.bind fun time => ?_
  refine Silent.get.bind fun store => ?_
  refine (Silent.compute _).bind fun prepared => ?_
  refine (Silent.compute _).bind fun canonical => ?_
  refine (Silent.compute _).bind fun sealed => ?_
  exact sealed.apply_cautious.bind fun _ => Sure.pure _

theorem Draft.perform_apply (draft : Draft) (store : Store) :
    draft.apply.perform store =
      match draft.finish with
      | .ok request => (.ok (), { store with request := request })
      | .error fault => (.error fault, store) := by
  simp only [apply, perform_bind, perform_compute, perform_write, finish]
  cases (PathAndQuery.parse (Bytes.ofText draft.target)).mapError Fault.uri with
  | error fault => rfl
  | ok target =>
      simp only [bind, Except.bind]
      cases (Uri.ofParts (some draft.scheme) (some draft.authority)
        (some target)).mapError Fault.uri with
      | error fault => rfl
      | ok uri => rfl

namespace Signer

variable {signer : Signer} {credential : Credential} {placement : Placement}

theorem place_eq (draft : Draft) (credential : Credential) (placement : Placement) (scope : Scope)
    (canonical : Canonical) :
    place draft credential placement scope canonical =
      withSignature draft credential placement scope canonical >>= Draft.finish := by
  cases placement with
  | header => rfl
  | query expiry => rfl

theorem check_error_iff :
    (∃ fault, signer.check credential placement = .error fault) ↔
      signer.Refuses credential placement := by
  unfold check Refuses
  by_cases access : credential.accessKeyId = ""
  · simp [Credential.isValid, access]
  by_cases secret : credential.secretAccessKey = ""
  · simp [Credential.isValid, secret]
  have valid : credential.isValid = true := by simp [Credential.isValid, access, secret]
  cases placement with
  | header => simp [valid, access, secret]
  | query expiry =>
      by_cases streaming : signer.strategy = .streaming
      · simp [valid, streaming]
      by_cases long : 604800 < expiry
      · simp [valid, streaming, maxExpiry, long]
      · simp [valid, access, secret, streaming, maxExpiry, long]

theorem clock_sign (allowed : signer.check credential placement = .ok ()) (request : Request)
    (body : Option Bytes) (clock : Clock) :
    (signer.sign request body credential placement clock).clock = clock.tick := by
  simp only [sign, allowed]
  split
  · rfl
  · rfl

theorem sign_refused {fault : Fault} (refused : signer.check credential placement = .error fault)
    (request : Request) (body : Option Bytes) (clock : Clock) :
    signer.sign request body credential placement clock = ⟨.error fault, request, clock, []⟩ := by
  simp only [sign, refused]

theorem perform_refused {fault : Fault} (refused : signer.check credential placement = .error fault)
    (body : Option Bytes) (store : Store) :
    (signer.signInPlace body credential placement).perform store = (.error fault, store) := by
  simp only [signInPlace, perform_bind, perform_compute, refused]

/-- Signing at an instant, as one chain of steps. -/
theorem signAt_steps (request : Request) (body : Option Bytes) (time : Instant) :
    (signer.signAt request body credential placement time).2 = do
      let (draft, hash) ← signer.prepare request body credential placement (signer.scope time)
      let canonical ← Canonical.ofDraft draft hash
      let sealed ← withSignature draft credential placement (signer.scope time) canonical
      let signed ← sealed.finish
      return (signed, ⟨signature credential (signer.scope time) canonical, signer.scope time,
        canonical.signedHeaders, hash⟩) := by
  rcases signAt_cases signer request body credential placement time with
    ⟨fault, unprepared | ⟨draft, hash, prepared, unbuilt⟩, failed⟩ |
      ⟨draft, hash, canonical, prepared, built⟩
  · rw [failed, unprepared]
    rfl
  · rw [failed, prepared]
    simp only [bind, Except.bind, unbuilt]
  · rw [signAt_eq prepared built, place_eq, prepared]
    simp only [bind, Except.bind, built]
    cases withSignature draft credential placement (signer.scope time) canonical with
    | error fault => rfl
    | ok sealed =>
        simp only
        cases sealed.finish with
        | error fault => rfl
        | ok signed => rfl

theorem sign_allowed (allowed : signer.check credential placement = .ok ()) (request : Request)
    (body : Option Bytes) (clock : Clock) :
    let signed := (signer.signAt request body credential placement clock.now).2
    (signer.sign request body credential placement clock).result = signed.map Prod.snd ∧
      (signer.sign request body credential placement clock).request =
        (signed.toOption.elim request Prod.fst) := by
  simp only [sign, allowed]
  rcases signer.signAt request body credential placement clock.now with
    ⟨log, fault | ⟨signed, output⟩⟩
  · exact ⟨rfl, rfl⟩
  · exact ⟨rfl, rfl⟩

theorem perform_allowed (allowed : signer.check credential placement = .ok ())
    (body : Option Bytes) (store : Store) :
    (signer.signInPlace body credential placement).perform store =
      ((signer.sign store.request body credential placement store.clock).result,
        ⟨(signer.sign store.request body credential placement store.clock).request,
          store.clock.tick, store.drawn + 1⟩) := by
  obtain ⟨result, request⟩ := sign_allowed allowed store.request body store.clock
  rw [result, request, signAt_steps]
  simp only [signInPlace, perform_bind, perform_compute, perform_draw, perform_get, allowed]
  cases signer.prepare store.request body credential placement (signer.scope store.clock.now) with
  | error fault => rfl
  | ok prepared =>
      simp only [bind, Except.bind]
      cases Canonical.ofDraft prepared.1 prepared.2 with
      | error fault => rfl
      | ok canonical =>
          simp only
          cases withSignature prepared.1 credential placement (signer.scope store.clock.now)
            canonical with
          | error fault => rfl
          | ok sealed =>
              simp only [Draft.perform_apply]
              cases sealed.finish with
              | error fault => rfl
              | ok signed => rfl

theorem request_of_failed {fault : Fault} {request : Request} {body : Option Bytes} {clock : Clock}
    (failed : (signer.sign request body credential placement clock).result = .error fault) :
    (signer.sign request body credential placement clock).request = request := by
  cases checked : signer.check credential placement with
  | error refusal => rw [sign_refused checked]
  | ok =>
      have kept := signer.signInPlace_cautious body credential placement ⟨request, clock, 0⟩ fault
      rw [perform_allowed checked] at kept
      exact kept failed

theorem perform_result (body : Option Bytes) (store : Store) :
    let signing := signer.sign store.request body credential placement store.clock
    let ran := (signer.signInPlace body credential placement).perform store
    ran.1 = signing.result ∧ ran.2.request = signing.request ∧ ran.2.clock = signing.clock := by
  cases checked : signer.check credential placement with
  | error fault =>
      rw [perform_refused checked, sign_refused checked]
      exact ⟨rfl, rfl, rfl⟩
  | ok =>
      have ticked := clock_sign checked store.request body store.clock
      rw [perform_allowed checked]
      exact ⟨rfl, rfl, ticked.symm⟩

/-- Signing in place comes to what `sign` gives. Whatever fails, the request is left as it was, and
so it is by a draft that cannot be written. A call that is refused draws no instant, and every other
one draws one. -/
theorem failed_signing_keeps_request (signer : Signer) (body : Option Bytes)
    (credential : Credential) (placement : Placement) (store : Store) :
    let signing := signer.sign store.request body credential placement store.clock
    let ran := (signer.signInPlace body credential placement).perform store
    (ran.1 = signing.result ∧ ran.2.request = signing.request ∧ ran.2.clock = signing.clock) ∧
    (∀ fault, signing.result = .error fault → signing.request = store.request) ∧
    (signer.Refuses credential placement →
      (∃ fault, signing.result = .error fault) ∧ ran.2 = store) ∧
    (¬ signer.Refuses credential placement →
      ran.2.clock = store.clock.tick ∧ ran.2.drawn = store.drawn + 1) ∧
    ∀ draft : Draft, (draft.apply.perform store).1 = draft.finish.map (fun _ => ()) ∧
      Cautious draft.apply := by
  refine ⟨perform_result body store, fun _ => request_of_failed, ?refused, ?allowed, ?written⟩
  case refused =>
    intro refused
    obtain ⟨fault, checked⟩ := check_error_iff.mpr refused
    rw [perform_refused checked, sign_refused checked]
    exact ⟨⟨fault, rfl⟩, rfl⟩
  case allowed =>
    intro allowed
    cases checked : signer.check credential placement with
    | error fault => exact absurd (check_error_iff.mp ⟨fault, checked⟩) allowed
    | ok =>
        rw [perform_allowed checked]
        exact ⟨rfl, rfl⟩
  case written =>
    intro draft
    refine ⟨?_, draft.apply_cautious⟩
    rw [draft.perform_apply]
    cases draft.finish with
    | error fault => rfl
    | ok signed => rfl

end Signer

end SigV4
