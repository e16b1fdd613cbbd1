import FrostSshCa.Coordinator.Shares

/-!
# Preparing a certificate

`call_tbs` reads the template into `g_dummy_cert` before it knows how the subprocess
ended, and decodes into `g_tbs` before it knows that the line is hex; `prepare_tbs`
replaces the TBS before it has the key to patch it with. A failure leaves the requests
apart only where these writes come too late, or write what is there already.
-/

namespace FrostSshCa.Coordinator

variable {c : Coord} {env : TbsEnv}

/-- What one request is made of. -/
def requestView (c : Coord) : Bytes × Bytes × Bytes × (Fin maxSessions → RoastSession) :=
  (c.tbs, c.tbsHex, c.dummyCert, c.sessions)

/-- The new request: its template and its TBS are of one call, the TBS ends in the key,
and no session is left. -/
structure Prepared (c : Coord) (env : TbsEnv) (c' : Coord) : Prop where
  call : ∃ d tbs key, askTbs c env = .ok d tbs ∧ env.caKey = some key ∧ 32 ≤ tbs.length ∧
    c'.dummyCert = d ∧ c'.tbs = tbs.take (tbs.length - 32) ++ key.toList
  hex : c'.tbsHex = c'.tbs
  sessions : ∀ k, c'.sessions k = RoastSession.zero

/-- `prepare_tbs` replaces the whole request or nothing of it. -/
structure Atomic (c : Coord) (env : TbsEnv) : Prop where
  failure : (prepareTbs c env).2 = false → requestView (prepareTbs c env).1 = requestView c
  success : (prepareTbs c env).2 = true → Prepared c env (prepareTbs c env).1

/-- The call gets as far as to the end, or writes nothing but what is there. -/
def SafeCall (c : Coord) (env : TbsEnv) : Prop :=
  match askTbs c env with
  | .noTemplate => True
  | .template d => d = c.dummyCert
  | .badHex d p => d = c.dummyCert ∧ p.take c.tbs.length <+: c.tbs
  | .ok d tbs =>
    if tbs.length = 0 ∨ tbs.length > maxPayload then d = c.dummyCert
    else 32 ≤ tbs.length ∧ env.caKey.isSome ∨ d = c.dummyCert ∧ tbs = c.tbs ∧ tbs = c.tbsHex

/-- A decoded front that was there before changes nothing. -/
theorem overwritten_eq_iff (p t : Bytes) :
    (p ++ t.drop p.length).take t.length = t ↔ p.take t.length <+: t := by
  by_cases hle : p.length ≤ t.length
  · rw [List.take_of_length_le hle, List.take_of_length_le (by simp; omega)]
    constructor
    · exact fun e => ⟨_, e⟩
    · rintro ⟨r, rfl⟩
      rw [List.drop_left]
  · have hlen : (p.take t.length).length = t.length := by
      rw [List.length_take]
      omega
    rw [List.take_append_of_le_length (by omega)]
    exact ⟨fun e => ⟨[], by rw [e, List.append_nil]⟩, fun h => h.eq_of_length hlen⟩

/-- **`prepare_tbs` is atomic** if and only if what it writes before it fails was there. -/
theorem atomic_iff (c : Coord) (env : TbsEnv) : Atomic c env ↔ SafeCall c env := by
  have failing {x : Coord} (e : prepareTbs c env = (x, false)) :
      Atomic c env ↔ requestView x = requestView c := by
    refine ⟨fun h => ?_, fun h => ⟨fun _ => by rw [e]; exact h,
      fun h' => by rw [e] at h'; cases h'⟩⟩
    have hf := h.failure (by rw [e])
    rwa [e] at hf
  have template {d : Bytes} (e : prepareTbs c env = ({ c with dummyCert := d }, false)) :
      Atomic c env ↔ d = c.dummyCert := by
    rw [failing e]
    simp [requestView]
  unfold SafeCall
  cases hc : askTbs c env with
  | noTemplate =>
    have e : prepareTbs c env = (c, false) := by
      unfold prepareTbs
      rw [hc]
    rw [failing e]
    exact ⟨fun _ => trivial, fun _ => rfl⟩
  | template d =>
    refine template ?_
    unfold prepareTbs
    rw [hc]
  | badHex d p =>
    have e : prepareTbs c env =
        ({ c with dummyCert := d, tbs := (p ++ c.tbs.drop p.length).take c.tbs.length },
          false) := by
      unfold prepareTbs
      rw [hc]
    rw [failing e]
    simp only [requestView, Prod.mk.injEq]
    rw [overwritten_eq_iff]
    tauto
  | ok d tbs =>
    have hpt : prepareTbs c env = if tbs.length = 0 ∨ tbs.length > maxPayload
        then ({ c with dummyCert := d }, false)
        else patchAndClear { c with dummyCert := d, tbs := tbs, tbsHex := tbs } env.caKey := by
      unfold prepareTbs
      rw [hc]
    dsimp only
    by_cases hsize : tbs.length = 0 ∨ tbs.length > maxPayload
    · rw [if_pos hsize]
      exact template (hpt.trans (if_pos hsize))
    rw [if_neg hsize]
    rw [if_neg hsize] at hpt
    unfold patchAndClear at hpt
    -- the TBS is replaced, and what follows fails
    have replaced (e : prepareTbs c env = ({ c with dummyCert := d, tbs := tbs, tbsHex := tbs },
        false)) :
        Atomic c env ↔ d = c.dummyCert ∧ tbs = c.tbs ∧ tbs = c.tbsHex := by
      rw [failing e]
      simp only [requestView, Prod.mk.injEq]
      tauto
    by_cases h32 : tbs.length < 32
    · rw [if_pos h32] at hpt
      rw [replaced hpt]
      constructor
      · exact .inr
      · rintro (⟨h, -⟩ | h)
        · omega
        · exact h
    rw [if_neg h32] at hpt
    cases hk : env.caKey with
    | none =>
      rw [hk] at hpt
      rw [replaced hpt]
      constructor
      · exact .inr
      · rintro (⟨-, h⟩ | h)
        · cases h
        · exact h
    | some key =>
      rw [hk] at hpt
      dsimp only at hpt
      refine ⟨fun _ => .inl ⟨by omega, rfl⟩, fun _ =>
        ⟨fun hf => (by rw [hpt] at hf; cases hf), fun _ => ?_⟩⟩
      rw [hpt]
      exact ⟨⟨d, tbs, key, hc, hk, by omega, rfl, rfl⟩, rfl, fun _ => rfl⟩

/-- A run of `tbs` that fails after its template line replaces the template: the next
certificate would be minted from it and the old TBS. -/
theorem template_replaced : Started (signStart 2 2 2) ∧
    ¬ Atomic (signStart 2 2 2) ⟨0, fun _ _ _ => .template [1], none⟩ := by
  refine ⟨signStart_started (by decide) (by decide) (by decide), fun h => ?_⟩
  have := congrArg (fun v => v.2.2.1) (h.failure rfl)
  exact absurd this (by decide +kernel)

end FrostSshCa.Coordinator
