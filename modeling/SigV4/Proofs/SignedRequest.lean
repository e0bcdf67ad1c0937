import SigV4.Proofs.PreparedDraft
/-!
What a call of the signer has gone through when it succeeds: a draft was prepared, its canonical
text was built, and the request that is left behind was written with the signature in place.
-/
namespace SigV4.Signer

variable {signer : Signer} {request : Request} {body : Option Bytes} {credential : Credential}
  {placement : Placement} {time : Instant} {draft : Draft} {hash : PayloadHash}
  {canonical : Canonical} {clock : Clock} {output : SigningOutput}

/-- A canonical request that is built is logged with what is signed of it, and then placed. -/
theorem signAt_built
    (prepared : signer.prepare request body credential placement (signer.scope time) =
      .ok (draft, hash))
    (built : Canonical.ofDraft draft hash = .ok canonical) :
    signer.signAt request body credential placement time =
      ([.debug ("calculated scope: " ++ (signer.scope time).text),
        .debug ("calculated canonical request: " ++ canonical.text),
        .debug ("calculated string to sign: " ++ stringToSign (signer.scope time) canonical)],
       (place draft credential placement (signer.scope time) canonical).map fun sealed =>
        (sealed, ⟨signature credential (signer.scope time) canonical, signer.scope time,
          canonical.signedHeaders, hash⟩)) := by
  simp only [signAt, prepared, built, bind, Except.bind, pure, Except.pure]
  cases place draft credential placement (signer.scope time) canonical with
  | error fault => rfl
  | ok sealed => rfl

theorem signAt_eq
    (prepared : signer.prepare request body credential placement (signer.scope time) =
      .ok (draft, hash))
    (built : Canonical.ofDraft draft hash = .ok canonical) :
    (signer.signAt request body credential placement time).2 =
      (place draft credential placement (signer.scope time) canonical).map fun sealed =>
        (sealed, ⟨signature credential (signer.scope time) canonical, signer.scope time,
          canonical.signedHeaders, hash⟩) := by
  rw [signAt_built prepared built]

/-- Signing stops at a draft that cannot be prepared or at one that cannot be made canonical, and
has logged no more than the scope. Else it has come as far as a canonical request. -/
theorem signAt_cases (signer : Signer) (request : Request) (body : Option Bytes)
    (credential : Credential) (placement : Placement) (time : Instant) :
    (∃ fault,
      (signer.prepare request body credential placement (signer.scope time) = .error fault ∨
        ∃ draft hash,
          signer.prepare request body credential placement (signer.scope time) =
            .ok (draft, hash) ∧
          Canonical.ofDraft draft hash = .error fault) ∧
      signer.signAt request body credential placement time =
        ([.debug ("calculated scope: " ++ (signer.scope time).text)], .error fault)) ∨
    ∃ draft hash canonical,
      signer.prepare request body credential placement (signer.scope time) = .ok (draft, hash) ∧
      Canonical.ofDraft draft hash = .ok canonical := by
  cases prepared : signer.prepare request body credential placement (signer.scope time) with
  | error fault =>
      refine Or.inl ⟨fault, Or.inl rfl, ?_⟩
      simp only [signAt, prepared, bind, Except.bind]
  | ok pair =>
      obtain ⟨draft, hash⟩ := pair
      cases built : Canonical.ofDraft draft hash with
      | error fault =>
          refine Or.inl ⟨fault, Or.inr ⟨draft, hash, rfl, built⟩, ?_⟩
          simp only [signAt, prepared, built, bind, Except.bind]
      | ok canonical => exact Or.inr ⟨draft, hash, canonical, rfl, built⟩

theorem signAt_ok {signed : Request}
    (done : (signer.signAt request body credential placement time).2 = .ok (signed, output)) :
    ∃ draft hash canonical,
      signer.prepare request body credential placement (signer.scope time) = .ok (draft, hash) ∧
      Canonical.ofDraft draft hash = .ok canonical ∧
      place draft credential placement (signer.scope time) canonical = .ok signed ∧
      output = ⟨signature credential (signer.scope time) canonical, signer.scope time,
        canonical.signedHeaders, hash⟩ := by
  rcases signAt_cases signer request body credential placement time with
    ⟨fault, _, failed⟩ | ⟨draft, hash, canonical, prepared, built⟩
  · rw [failed] at done
    contradiction
  · rw [signAt_eq prepared built] at done
    obtain ⟨sealed, placed, same⟩ := Success.map_ok.mp done
    obtain ⟨rfl, rfl⟩ := Prod.mk.inj same
    exact ⟨draft, hash, canonical, prepared, built, placed, rfl⟩

theorem log_sign (allowed : signer.check credential placement = .ok ()) :
    (signer.sign request body credential placement clock).log =
      (signer.signAt request body credential placement clock.now).1 := by
  unfold sign
  rw [allowed]
  rcases signer.signAt request body credential placement clock.now with ⟨log, fault | made⟩
  · rfl
  · rfl

theorem sign_ok
    (done : (signer.sign request body credential placement clock).result = .ok output) :
    (signer.signAt request body credential placement clock.now).2 =
      .ok ((signer.sign request body credential placement clock).request, output) := by
  unfold sign at done ⊢
  cases allowed : signer.check credential placement with
  | error fault =>
      rw [allowed] at done
      contradiction
  | ok =>
      rw [allowed] at done
      simp only at done ⊢
      rcases found : signer.signAt request body credential placement clock.now with
        ⟨log, fault | ⟨signed, result⟩⟩
      · rw [found] at done
        contradiction
      · rw [found] at done
        cases done
        rfl

/-- Nothing stands in the way of a request that was prepared and placed. -/
theorem sign_placed {signed : Request} (allowed : signer.check credential placement = .ok ())
    (prepared : signer.prepare request body credential placement (signer.scope clock.now) =
      .ok (draft, hash))
    (built : Canonical.ofDraft draft hash = .ok canonical)
    (placed : place draft credential placement (signer.scope clock.now) canonical = .ok signed) :
    (signer.sign request body credential placement clock).result =
        .ok ⟨signature credential (signer.scope clock.now) canonical, signer.scope clock.now,
          canonical.signedHeaders, hash⟩ ∧
      (signer.sign request body credential placement clock).request = signed := by
  have done := signAt_eq prepared built
  rw [placed] at done
  unfold sign
  rw [allowed]
  simp only
  rcases found : signer.signAt request body credential placement clock.now with ⟨log, result⟩
  rw [found] at done
  simp only [Except.map] at done
  subst done
  exact ⟨rfl, rfl⟩

theorem sign_of_placed {signed : Request}
    (allowed : signer.check credential placement = .ok ())
    (prepared : signer.prepare request body credential placement (signer.scope clock.now) =
      .ok (draft, hash))
    (built : Canonical.ofDraft draft hash = .ok canonical)
    (placed : place draft credential placement (signer.scope clock.now) canonical = .ok signed) :
    ∃ output, (signer.sign request body credential placement clock).result = .ok output :=
  ⟨_, (sign_placed allowed prepared built placed).1⟩

theorem allowed_of_done
    (done : (signer.sign request body credential placement clock).result = .ok output) :
    signer.check credential placement = .ok () := by
  unfold sign at done
  cases allowed : signer.check credential placement with
  | error fault =>
      rw [allowed] at done
      contradiction
  | ok => rfl

theorem place_header_iff {scope : Scope} {signed : Request} :
    place draft credential .header scope canonical = .ok signed ↔
      ∃ value, HeaderValue.checked (authorization credential scope canonical) true = .ok value ∧
        Draft.finish
          { draft with
            query := Canonical.sortedQuery draft.query
            headers := draft.headers.insert .authorization value } = .ok signed := by
  simp only [place, Draft.setHeader_eq, Success.bind_ok, Success.map_ok]
  constructor
  · rintro ⟨written, ⟨value, made, rfl⟩, finished⟩
    exact ⟨value, made, finished⟩
  · rintro ⟨value, made, finished⟩
    exact ⟨_, ⟨value, made, rfl⟩, finished⟩

theorem readable_authorization {scope : Scope} (known : Readable (credentialText credential scope))
    (names : Readable canonical.signedHeaders) :
    Readable (authorization credential scope canonical) := by
  have algorithm : Readable Signature.requestAlgorithm := readable_of_all rfl
  have first : Readable " Credential=" := readable_of_all rfl
  have second : Readable ", SignedHeaders=" := readable_of_all rfl
  have third : Readable ", Signature=" := readable_of_all rfl
  have signed : Readable (signature credential scope canonical) := readable_encode _
  simp only [authorization, readable_append]
  exact ⟨⟨⟨⟨⟨⟨algorithm, first⟩, known⟩, second⟩, names⟩, third⟩, signed⟩

theorem place_of_readable {scope : Scope} {written : Headers → Request}
    (readable : Readable (authorization credential scope canonical))
    (finished : ∀ headers, Draft.finish
      { draft with query := Canonical.sortedQuery draft.query, headers := headers } =
        .ok (written headers)) :
    ∃ signed, place draft credential .header scope canonical = .ok signed := by
  have made := HeaderValue.checked_sendable (sendable_of_readable readable) true
  exact ⟨_, place_header_iff.mpr ⟨_, made, finished _⟩⟩

end SigV4.Signer
