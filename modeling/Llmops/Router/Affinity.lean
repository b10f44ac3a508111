import Llmops.Router.Select

/-!
# The affinity law

What `_affinity` (`routing_strategies.py:156-189`) returns when scores are rationals or infinite. The
home of a key is a function of the key and of the ids in the roster: the list is sorted, and the UTF-8
of the key is hashed without a salt. It is kept while it `Sticks`; otherwise the choice is that of
`least_load`, which may be the home again, for instance when every replica is in cooldown. A key with a
lone surrogate has no UTF-8 and no home (`affinity_of_surrogate`), so the law leaves it out.

* `affinity_law`: the home, the escape valve, and the case without a key;
* `home_in_cooldown`: a home in cooldown is returned where no other replica is better.
-/

namespace Llmops.Router

open Lib

/-! ## The least of the candidates -/

section Least

variable {S : Type} [LinearOrder S] {score : String → S} {candidates : List String}

/-- `leastBy` returns one of the least. -/
theorem leastBy_le (h : candidates ≠ []) {i : String} (hi : i ∈ candidates) :
    score (leastBy score candidates h) ≤ score i := by
  have hfold : ∀ (rest : List String) (best : String), ∀ j ∈ best :: rest,
      score (rest.foldl (fun best i => if score i < score best then i else best) best) ≤
        score j := by
    intro rest
    induction rest with
    | nil =>
      intro best j hj
      rw [List.mem_singleton.mp hj]
      exact le_rfl
    | cons k rest ih =>
      intro best j hj
      rw [List.foldl_cons]
      have hnext := ih (if score k < score best then k else best) _ List.mem_cons_self
      rcases List.mem_cons.mp hj with rfl | hj
      · refine hnext.trans ?_
        split_ifs with hlt
        · exact hlt.le
        · exact le_rfl
      · rcases List.mem_cons.mp hj with rfl | hrest
        · refine hnext.trans ?_
          split_ifs with hlt
          · exact le_rfl
          · exact not_lt.mp hlt
        · exact ih _ j (List.mem_cons_of_mem _ hrest)
  refine hfold candidates.tail (candidates.head h) i ?_
  rwa [List.cons_head_tail]

end Least

/-! ## The home -/

namespace SelectContext

section Home

variable {S : Type} {ctx other : SelectContext S} {key : PyText}

theorem roster_of_subset (hsub : ∀ i ∈ ctx.candidates, i ∈ ctx.allInstances) :
    ctx.roster = ctx.allInstances := by
  refine if_neg fun hnone => ?_
  have hmem := hsub _ (List.head_mem ctx.nonempty)
  rw [hnone] at hmem
  exact absurd hmem List.not_mem_nil

/-- The same ids in another order give the same ring. -/
theorem ring_congr (hperm : ctx.roster.Perm other.roster) : ctx.ring = other.ring := by
  have hsorted : ctx.ring.Perm other.ring := (List.perm_insertionSort (· ≤ ·) ctx.roster).trans
    (hperm.trans (List.perm_insertionSort (· ≤ ·) other.roster).symm)
  exact hsorted.eq_of_pairwise (fun a b _ _ (hab : a ≤ b) (hba : b ≤ a) => le_antisymm hab hba)
    (List.pairwise_insertionSort (· ≤ ·) _) (List.pairwise_insertionSort (· ≤ ·) _)

theorem home_congr (hring : ctx.ring = other.ring) (hhash : ctx.sha1 = other.sha1) :
    ctx.home key = other.home key := by
  unfold home hashKey ringAt
  simp only [List.get_eq_getElem, hring, hhash]

end Home

/-! ## The law -/

variable (ctx : SelectContext (WithTop ℚ))

/-- The load score of an instance. -/
def score (instance_ : String) : WithTop ℚ := ctx.app.scoreInstance ctx.now ctx.modelKey instance_

/-- A candidate of minimum score. -/
def IsLightest (instance_ : String) : Prop :=
  instance_ ∈ ctx.candidates ∧ ∀ i ∈ ctx.candidates, ctx.score instance_ ≤ ctx.score i

/-- A home keeps its key: a candidate, not in cooldown, of a score within the margin of the
minimum. -/
structure Sticks (home : String) : Prop where
  candidate : home ∈ ctx.candidates
  healthy : ctx.app.isBackendInCooldown ctx.now ctx.modelKey home = false
  near : ∃ lightest, ctx.IsLightest lightest ∧ ctx.score home ≤ ctx.score lightest + ctx.margin

/-- **The affinity law** for a key and its home. -/
structure AffinityLaw (key : PyText) (home : String) : Prop where
  stable : ∀ other : SelectContext (WithTop ℚ), other.sha1 = ctx.sha1 →
    other.allInstances.Nodup → (∀ i ∈ other.candidates, i ∈ other.allInstances) →
    (∀ i, i ∈ other.allInstances ↔ i ∈ ctx.allInstances) → other.home key = .ok home
  sticks : ctx.Sticks home → ctx.affinity (some key) = .ok home
  escapes : ¬ ctx.Sticks home →
    ctx.affinity (some key) = .ok ctx.leastLoad ∧ ctx.IsLightest ctx.leastLoad
  empty : ctx.affinity (some []) = .ok ctx.leastLoad
  missing : ctx.affinity none = .ok ctx.leastLoad

variable {ctx} {home : String}

theorem leastLoad_lightest : ctx.IsLightest ctx.leastLoad :=
  ⟨leastLoad_mem, fun _ hi => leastBy_le ctx.nonempty hi⟩

/-- The candidates of minimum score have one score. -/
theorem IsLightest.score_eq {i j : String} (hi : ctx.IsLightest i) (hj : ctx.IsLightest j) :
    ctx.score i = ctx.score j :=
  le_antisymm (hi.2 j hj.1) (hj.2 i hi.1)

/-- What the code tests of the home is that it sticks. -/
theorem sticks_iff : ctx.Sticks home ↔ home ∈ ctx.candidates ∧
    ctx.app.isBackendInCooldown ctx.now ctx.modelKey home = false ∧
    ctx.score home ≤ ctx.score ctx.leastLoad + ctx.margin := by
  constructor
  · rintro ⟨hmem, hhealthy, lightest, hlightest, hnear⟩
    refine ⟨hmem, hhealthy, ?_⟩
    rw [leastLoad_lightest.score_eq hlightest]
    exact hnear
  · rintro ⟨hmem, hhealthy, hnear⟩
    exact ⟨hmem, hhealthy, _, leastLoad_lightest, hnear⟩

/-- **Affinity**: for every roster, candidates, scores and key that UTF-8 can encode. -/
theorem affinity_law (ctx : SelectContext (WithTop ℚ)) (hunique : ctx.allInstances.Nodup)
    (hsub : ∀ i ∈ ctx.candidates, i ∈ ctx.allInstances) (key : PyText) (hkey : key ≠ [])
    (hencodes : NoSurrogate key) :
    ∃ home, ctx.home key = .ok home ∧ ctx.AffinityLaw key home := by
  obtain ⟨home, hhome⟩ : ∃ home, ctx.home key = .ok home := home_of_noSurrogate hencodes
  refine ⟨home, hhome, fun other hhash hother hothersub hsame => ?_, fun hsticks => ?_,
    fun hescapes => ?_, rfl, rfl⟩
  · rw [← hhome]
    refine home_congr (ring_congr ?_) hhash
    rw [roster_of_subset hothersub, roster_of_subset hsub]
    exact (List.perm_ext_iff_of_nodup hother hunique).mpr hsame
  · rw [affinity_of_home hkey hhome]
    exact congrArg Except.ok (if_pos (sticks_iff.mp hsticks))
  · rw [affinity_of_home hkey hhome]
    exact ⟨congrArg Except.ok (if_neg (mt sticks_iff.mpr hescapes)), leastLoad_lightest⟩

/-- Two replicas without load, every key hashed to 0; `cooldown` is the end of both cooldowns. -/
def twoReplicas (cooldown : Option Time) : SelectContext (WithTop ℚ) where
  app := { cooldownUntil := fun _ => cooldown }
  now := 100
  modelKey := "chat"
  candidates := ["b", "a"]
  allInstances := ["b", "a"]
  sessionKey := none
  promptPrefix := none
  margin := ((50 : ℚ) : WithTop ℚ)
  draw := (0, 0)
  sha1 := fun _ => 0
  nonempty := List.cons_ne_nil _ _

/-- The key `"é"`. -/
theorem affinity_law_twoReplicas : (∃ home, (twoReplicas none).home [0xE9] = .ok home ∧
    (twoReplicas none).AffinityLaw [0xE9] home) ∧
    (twoReplicas none).affinity (some [0xE9]) = .ok "a" :=
  ⟨affinity_law (twoReplicas none) (by decide +kernel) (fun _ hi => hi) [0xE9]
    (List.cons_ne_nil _ _) (by decide),
    (affinity_of_home (List.cons_ne_nil _ _)
      (show (twoReplicas none).home [0xE9] = .ok "a" from rfl)).trans
        (congrArg Except.ok (by decide +kernel))⟩

/-- **A home in cooldown that is returned**: both replicas are, and the home is the first of the
least. -/
theorem home_in_cooldown : ∃ (ctx : SelectContext (WithTop ℚ)) (key : PyText) (home : String),
    ctx.allInstances.Nodup ∧ (∀ i ∈ ctx.candidates, i ∈ ctx.allInstances) ∧ key ≠ [] ∧
    ctx.home key = .ok home ∧ ¬ (ctx.affinity (some key) = .ok home ↔ ctx.Sticks home) := by
  let ctx : SelectContext (WithTop ℚ) := { twoReplicas (some 110) with sha1 := fun _ => 1 }
  have hhome : ctx.home [0xE9] = .ok "b" := rfl
  have hreturned : ctx.affinity (some [0xE9]) = .ok "b" :=
    (affinity_of_home (List.cons_ne_nil _ _) hhome).trans (congrArg Except.ok (by decide +kernel))
  refine ⟨ctx, [0xE9], "b", by decide +kernel, fun _ hi => hi, List.cons_ne_nil _ _, hhome,
    fun h => ?_⟩
  exact absurd (h.mp hreturned).healthy (by decide +kernel)

end SelectContext

end Llmops.Router
