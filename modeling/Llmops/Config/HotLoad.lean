import Llmops.Config.Lora

/-!
# Loading an adapter into a running group

`load_lora` (`llmops/manager.py:865-905`) with what its requests do to the instances: they go out one
after another, and an error of an instance that answers unloads those before it. An error of the
transport is none of these (`except LoraRuntimeError`), and the request may have been served. The
adapter is written into the overlay after the last instance has it (`_persist_lora`), outside the block
that rolls back.

* `loadTargets_spec`: which instances have the adapter after the requests;
* `allOrNothing_iff`: a load is all-or-nothing exactly when no transport error leaves the adapter
  somewhere, and what has been loaded everywhere can be written;
* `half_loaded`: the second of two instances does not answer.
-/

namespace Llmops.Config

open Lib Node

/-! ## The requests -/

/-- Which instances have the adapter. -/
abbrev Adapters := String → Bool

/-- The requests to load the adapter, as far as they go: who has it, who is `done`, and the error.
`served` are the instances that serve a request whose answer is lost. -/
def loadTargets (answers : String → Posted) (served : String → Bool) :
    List String → List String → Adapters → Adapters × List String × Option LoraRaised
  | [], done, adapters => (adapters, done, none)
  | key :: rest, done, adapters =>
    match answers key with
    | .accepted =>
      loadTargets answers served rest (done ++ [key]) (Function.update adapters key true)
    | .refused .. => (adapters, done, postLora (answers key) key)
    | .unreachable _ =>
      (if served key then Function.update adapters key true else adapters, done,
        postLora (answers key) key)

/-- The unloads of the rollback, which succeed. -/
def unloadTargets (done : List String) (adapters : Adapters) : Adapters :=
  done.foldl (fun adapters key => Function.update adapters key false) adapters

/-- `load_lora`, with the instances. -/
def hotLoad (w : Setup) (x : Surround) (answers : String → Posted) (served : String → Bool)
    (group name path : String) (baseModelName : Option String) (m : Manager) (adapters : Adapters) :
    Adapters × Except LoraRaised (Manager × LoraReply) :=
  match planLoad m group name path with
  | .error e => (adapters, .error (.raised e))
  | .ok targets =>
    match loadTargets answers served targets [] adapters with
    | (adapters, done, some (.runtime message)) =>
      (unloadTargets done adapters, .error (.runtime message))
    | (adapters, _, some e) => (adapters, .error e)
    | (adapters, _, none) =>
      match persistLora w x group name (some (loraEntry name path baseModelName)) m with
      | .error e => (adapters, .error (.raised e))
      | .ok m => (adapters, .ok (m, { group, name, instances := targets }))

/-- `lora_modules` of a group in the overlay. -/
def overlayLoras (file : Option Json) (group : String) : Option (List Json) := do
  let engines ← groupsOf (← loadOverlay file)
  let settings ← fieldOf (engines.get group) "model_config"
  ((← settings.asObj).get "lora_modules").bind Json.asArr

/-- The entry of a list of adapters has the name. -/
def isNamed (name : String) (entry : Json) : Bool :=
  decide ((entry.asObj.bind fun d => d.get "name").bind Json.asStr = some name)

/-- The manager after a load: an error leaves it as it was. -/
def afterLoad (m : Manager) : Except LoraRaised (Manager × LoraReply) → Manager
  | .ok (m', _) => m'
  | .error _ => m

/-- **All-or-nothing**: what a load leaves when it raises, and when it returns. -/
structure AllOrNothing (m : Manager) (group name : String)
    (left : Adapters × Except LoraRaised (Manager × LoraReply)) : Prop where
  nothing : ∀ e, left.2 = .error e → (∀ key ∈ readyLoraTargets m group, left.1 key = false) ∧
    (afterLoad m left.2).file = m.file
  all : ∀ m' reply, left.2 = .ok (m', reply) →
    (∀ key ∈ readyLoraTargets m group, left.1 key = true) ∧
    ∃ loras, overlayLoras m'.file group = some loras ∧ loras.countP (isNamed name) = 1

/-- The transport fails where it leaves nothing: at the first instance, which has not served the
request. -/
def CleanTransport (answers : String → Posted) (served : String → Bool) (targets : List String) :
    Prop :=
  ∀ before key after error, targets = before ++ key :: after →
    (∀ k ∈ before, answers k = .accepted) → answers key = .unreachable error →
      before = [] ∧ served key = false

/-- What is loaded everywhere can be written into the overlay. -/
def Writable (w : Setup) (x : Surround) (answers : String → Posted) (group name path : String)
    (baseModelName : Option String) (m : Manager) (targets : List String) : Prop :=
  (∀ k ∈ targets, answers k = .accepted) → x.saves = true ∧
    (planLora w m group name (some (loraEntry name path baseModelName))).isOk = true

section Requests

variable {answers : String → Posted} {served : String → Bool} {done before after targets : List String}
  {key k : String} {adapters : Adapters}

/-- The instances that answered have the adapter when a request is made. -/
theorem loadTargets_append (h : ∀ k ∈ before, answers k = .accepted) (rest done : List String)
    (adapters : Adapters) :
    loadTargets answers served (before ++ rest) done adapters =
      loadTargets answers served rest (done ++ before)
        (fun k => decide (k ∈ before) || adapters k) := by
  induction before generalizing done adapters with
  | nil => simp
  | cons first before ih =>
    rw [List.cons_append, loadTargets, h first List.mem_cons_self]
    dsimp only
    rw [ih fun k hk => h k (List.mem_cons_of_mem _ hk), List.append_assoc, List.singleton_append]
    congr 1
    funext k
    by_cases hk : k = first
    · rw [hk, Function.update_self]
      simp
    · rw [Function.update_of_ne hk]
      simp [hk]

/-- A list of requests is accepted as a whole, or up to one that is not. -/
theorem accepted_or_split (answers : String → Posted) (targets : List String) :
    (∀ k ∈ targets, answers k = .accepted) ∨
    ∃ before key after, targets = before ++ key :: after ∧ (∀ k ∈ before, answers k = .accepted) ∧
      answers key ≠ .accepted := by
  induction targets with
  | nil => exact .inl fun k hk => absurd hk List.not_mem_nil
  | cons first rest ih =>
    by_cases hfirst : answers first = .accepted
    · rcases ih with hall | ⟨before, key, after, rfl, hbefore, hkey⟩
      · exact .inl (List.forall_mem_cons.mpr ⟨hfirst, hall⟩)
      · exact .inr ⟨first :: before, key, after, rfl, List.forall_mem_cons.mpr ⟨hfirst, hbefore⟩, hkey⟩
    · exact .inr ⟨[], first, rest, rfl, fun k hk => absurd hk List.not_mem_nil, hfirst⟩

theorem unloadTargets_apply (done : List String) (adapters : Adapters) (k : String) :
    unloadTargets done adapters k = (!decide (k ∈ done) && adapters k) := by
  induction done using List.reverseRecOn with
  | nil => simp [unloadTargets]
  | append_singleton done last ih =>
    have hlast : unloadTargets (done ++ [last]) adapters =
        Function.update (unloadTargets done adapters) last false := List.foldl_concat ..
    rw [hlast]
    by_cases hk : k = last
    · rw [hk, Function.update_self]
      simp
    · rw [Function.update_of_ne hk, ih]
      simp [hk]

end Requests

section Persisted

variable {w : Setup} {x : Surround} {m m' : Manager} {group name : String} {entry : Dict Json}
  {overlay : Dict Json} {config : RootConfig}

theorem persistLora_isOk {entry : Option (Dict Json)} :
    (∃ m', persistLora w x group name entry m = .ok m') ↔
    x.saves = true ∧ (planLora w m group name entry).isOk = true := by
  unfold persistLora
  cases hplan : planLora w m group name entry with
  | error e => simp [bind, Except.bind, Except.isOk, Except.toBool]
  | ok plan =>
    cases x.saves <;>
      simp [bind, Except.bind, raiseIf, pure, Except.pure, Except.isOk, Except.toBool]

/-- The entries of other names, and the new one. -/
theorem countP_withLora (settings : EngineModelConfig) (hentry : isNamed name (.obj entry) = true) :
    ∃ loras, ((withLora settings name (some entry)).get "lora_modules").bind Json.asArr = some loras ∧
      loras.countP (isNamed name) = 1 := by
  refine ⟨_, by rw [withLora, Dict.get_set_self]; rfl, ?_⟩
  rw [List.map_append, List.countP_append]
  have hothers : List.countP (isNamed name)
      ((((settings.loraModules.getD []).map (·.dump)).filter fun m =>
        (Dict.get m "name").bind Json.asStr ≠ some name).map .obj) = 0 := by
    refine List.countP_eq_zero.mpr fun v hv => ?_
    obtain ⟨d, hd, rfl⟩ := List.mem_map.mp hv
    have hother : (Dict.get d "name").bind Json.asStr ≠ some name :=
      of_decide_eq_true (List.mem_filter.mp hd).2
    exact fun hnamed => hother (of_decide_eq_true hnamed)
  rw [hothers, Nat.zero_add]
  simpa using hentry

/-- **One entry of the name**: what is persisted is in the overlay. -/
theorem overlayLoras_persisted (hentry : isNamed name (.obj entry) = true)
    (h : persistLora w x group name (some entry) m = .ok m') :
    ∃ loras, overlayLoras m'.file group = some loras ∧ loras.countP (isNamed name) = 1 := by
  obtain ⟨overlay, config, hplan, rfl⟩ := persistLora_eq_ok h
  simp only [planLora, bind_eq_ok, orRaise_eq_ok, pure, Except.pure, Except.ok.injEq,
    Prod.mk.injEq] at hplan
  obtain ⟨engine, -, ov, hov, c, -, rfl, rfl⟩ := hplan
  obtain ⟨base, engines, engines', -, -, hset, rfl⟩ := editGroups_eq_some.mp hov
  obtain ⟨old, -, hset⟩ := Option.bind_eq_some_iff.mp hset
  cases hset
  obtain ⟨loras, hloras, hcount⟩ := countP_withLora engine.settings hentry
  refine ⟨loras, ?_, hcount⟩
  rw [overlayLoras]
  show (loadOverlay (some (.obj _)) >>= _) = _
  rw [load_saved, Option.bind_eq_bind, Option.bind_some, groupsOf_saved, Option.bind_eq_bind,
    Option.bind_some, Dict.get_set_self, fieldOf_obj, Dict.get_set_self]
  exact hloras

theorem isNamed_loraEntry (path : String) (base : Option String) :
    isNamed name (.obj (loraEntry name path base)) = true := by
  unfold isNamed loraEntry
  simp [Json.asObj, Json.asStr, Dict.get_cons_self]

end Persisted

section Load

variable {w : Setup} {x : Surround} {m m' : Manager} {answers : String → Posted}
  {served : String → Bool} {group name path : String} {base : Option String}
  {targets before before' after after' : List String} {key key' : String}

theorem planLoad_eq_ok (h : planLoad m group name path = .ok targets) :
    targets = readyLoraTargets m group ∧ targets ≠ [] := by
  simp only [planLoad, bind_eq_ok, orRaise_eq_ok, refuseIf_eq_ok, pure, Except.pure,
    Except.ok.injEq] at h
  obtain ⟨engine, -, -, -, -, -, -, -, -, hsome, rfl⟩ := h
  exact ⟨rfl, by simpa using hsome⟩

/-- The first request that is not accepted is one. -/
theorem split_unique (h : before ++ key :: after = before' ++ key' :: after')
    (hbefore : ∀ k ∈ before, answers k = .accepted) (hkey : answers key ≠ .accepted)
    (hbefore' : ∀ k ∈ before', answers k = .accepted) (hkey' : answers key' ≠ .accepted) :
    before = before' ∧ key = key' := by
  induction before generalizing before' with
  | nil =>
    cases before' with
    | nil => exact ⟨rfl, (List.cons_eq_cons.mp h).1⟩
    | cons first rest =>
      have hfirst : key = first := (List.cons_eq_cons.mp h).1
      exact absurd (hbefore' first List.mem_cons_self) (hfirst ▸ hkey)
  | cons first rest ih =>
    cases before' with
    | nil =>
      have hfirst : first = key' := (List.cons_eq_cons.mp h).1
      exact absurd (hbefore first List.mem_cons_self) (hfirst ▸ hkey')
    | cons first' rest' =>
      obtain ⟨hfirst, hrest⟩ := List.cons_eq_cons.mp h
      obtain ⟨hsame, hkeys⟩ := ih hrest (fun k hk => hbefore k (List.mem_cons_of_mem _ hk))
        fun k hk => hbefore' k (List.mem_cons_of_mem _ hk)
      exact ⟨by rw [hfirst, hsame], hkeys⟩

/-- The instances of a fresh adapter after the accepted requests. -/
theorem loadTargets_all (h : ∀ k ∈ targets, answers k = .accepted) :
    loadTargets answers served targets [] (fun _ => false) =
      (fun k => decide (k ∈ targets), targets, none) := by
  have happend : loadTargets answers served (targets ++ []) [] (fun _ => false) = _ :=
    loadTargets_append h [] [] fun _ => false
  rw [List.append_nil] at happend
  rw [happend, loadTargets]
  simp

/-- An error of an instance that answers: those before it are unloaded. -/
theorem hotLoad_refused (hplan : planLoad m group name path = .ok targets)
    (hsplit : targets = before ++ key :: after) (hbefore : ∀ k ∈ before, answers k = .accepted)
    {status : Nat} {detail : String} (hkey : answers key = .refused status detail) :
    ∃ e, (hotLoad w x answers served group name path base m fun _ => false) =
      (fun _ => false, .error e) := by
  unfold hotLoad
  rw [hplan, hsplit]
  dsimp only
  rw [loadTargets_append hbefore, loadTargets, hkey]
  dsimp only [postLora]
  refine ⟨_, Prod.ext ?_ rfl⟩
  funext k
  dsimp only
  rw [unloadTargets_apply]
  simp

/-- An error of the transport: those before it keep the adapter. -/
theorem hotLoad_unreachable (hplan : planLoad m group name path = .ok targets)
    (hsplit : targets = before ++ key :: after) (hbefore : ∀ k ∈ before, answers k = .accepted)
    {error : String} (hkey : answers key = .unreachable error) :
    ∃ left e, (hotLoad w x answers served group name path base m fun _ => false) =
      (left, .error e) ∧
      ∀ k, left k = (decide (k ∈ before) || decide (k = key) && served key) := by
  unfold hotLoad
  rw [hplan, hsplit]
  dsimp only
  rw [loadTargets_append hbefore, loadTargets, hkey]
  dsimp only [postLora]
  refine ⟨_, _, rfl, fun k => ?_⟩
  cases hserved : served key with
  | false => simp
  | true =>
    rw [if_pos rfl]
    by_cases hk : k = key
    · rw [hk, Function.update_self]
      simp
    · rw [Function.update_of_ne hk]
      simp [hk]

/-- Every request is accepted: the adapter is written, or the error comes too late. -/
theorem hotLoad_accepted (hplan : planLoad m group name path = .ok targets)
    (hall : ∀ k ∈ targets, answers k = .accepted) :
    hotLoad w x answers served group name path base m (fun _ => false) =
      (fun k => decide (k ∈ targets),
        match persistLora w x group name (some (loraEntry name path base)) m with
        | .error e => .error (.raised e)
        | .ok m' => .ok (m', { group, name, instances := targets })) := by
  unfold hotLoad
  rw [hplan]
  dsimp only
  rw [loadTargets_all hall]
  dsimp only
  cases persistLora w x group name (some (loraEntry name path base)) m <;> rfl

/-- An error that leaves the adapter nowhere is a load of nothing. -/
theorem allOrNothing_of_error {left : Adapters} {e : LoraRaised} :
    AllOrNothing m group name (left, .error e) ↔
      ∀ k ∈ readyLoraTargets m group, left k = false := by
  refine ⟨fun h => (h.nothing e rfl).1, fun h => ⟨fun _ _ => ⟨h, rfl⟩, fun m' reply hok => ?_⟩⟩
  cases hok

/-- The error of the requests is the first one. -/
theorem loadTargets_error (answers : String → Posted) (served : String → Bool)
    (targets done : List String) (adapters : Adapters) :
    (loadTargets answers served targets done adapters).2.2 = (postAll answers targets).head? := by
  induction targets generalizing done adapters with
  | nil => rfl
  | cons key rest ih =>
    rw [loadTargets, postAll]
    cases hkey : answers key with
    | accepted =>
      dsimp only
      rw [ih, List.filterMap_cons_none (by rw [hkey]; rfl), postAll]
    | refused status detail =>
      rw [List.filterMap_cons_some (b := .runtime _) (by rw [hkey]; rfl)]
      rfl
    | unreachable error =>
      rw [List.filterMap_cons_some (b := .http error) (by rw [hkey]; rfl)]
      rfl

/-- What `hotLoad` answers is what `loadLora` does. -/
theorem hotLoad_result (adapters : Adapters) :
    (hotLoad w x answers served group name path base m adapters).2 =
      loadLora w x answers group name path base m := by
  unfold hotLoad loadLora
  cases planLoad m group name path with
  | error e => rfl
  | ok targets =>
    dsimp only
    rw [← loadTargets_error answers served targets [] adapters]
    obtain ⟨left, done, error⟩ := loadTargets answers served targets [] adapters
    cases error with
    | none => cases persistLora w x group name (some (loraEntry name path base)) m <;> rfl
    | some e => cases e <;> rfl

/-- **When a load is all-or-nothing**, from a state in which no instance has the adapter. -/
theorem allOrNothing_iff (w : Setup) (x : Surround) (m : Manager) (answers : String → Posted)
    (served : String → Bool) (group name path : String) (base : Option String) :
    AllOrNothing m group name
        (hotLoad w x answers served group name path base m fun _ => false) ↔
      ∀ targets, planLoad m group name path = .ok targets →
        CleanTransport answers served targets ∧
        Writable w x answers group name path base m targets := by
  cases hplan : planLoad m group name path with
  | error e =>
    refine iff_of_true ?_ fun targets h => by cases h
    unfold hotLoad
    rw [hplan]
    exact allOrNothing_of_error.mpr fun _ _ => rfl
  | ok targets =>
    obtain ⟨htargets, hsome⟩ := planLoad_eq_ok hplan
    have hforall : (∀ ts, Except.ok (ε := Raised) targets = .ok ts →
        CleanTransport answers served ts ∧ Writable w x answers group name path base m ts) ↔
        CleanTransport answers served targets ∧ Writable w x answers group name path base m targets :=
      ⟨fun h => h targets rfl, fun h ts hts => by cases hts; exact h⟩
    rw [hforall]
    rcases accepted_or_split answers targets with hall | ⟨before, key, after, hsplit, hbefore, hkey⟩
    · -- all of them have it, and the overlay decides
      have hclean : CleanTransport answers served targets := by
        intro b k a error hs _ hk
        rw [hall k (by rw [hs]; simp)] at hk
        cases hk
      rw [hotLoad_accepted hplan hall]
      cases hpersist : persistLora w x group name (some (loraEntry name path base)) m with
      | error e =>
        refine iff_of_false (fun h => ?_) fun h => ?_
        · obtain ⟨k, hk⟩ := List.exists_mem_of_ne_nil targets hsome
          have hfalse := allOrNothing_of_error.mp h k (htargets ▸ hk)
          simp [hk] at hfalse
        · obtain ⟨m', hok⟩ := persistLora_isOk.mpr (h.2 hall)
          rw [hpersist] at hok
          cases hok
      | ok m' =>
        refine iff_of_true ⟨fun e he => ?_, fun m'' reply hok => ?_⟩
          ⟨hclean, fun _ => persistLora_isOk.mp ⟨m', hpersist⟩⟩
        · cases he
        · cases hok
          exact ⟨fun k hk => by simpa using htargets ▸ hk,
            overlayLoras_persisted (isNamed_loraEntry path base) hpersist⟩
    · have hwritable : Writable w x answers group name path base m targets := fun hall =>
        absurd (hall key (by rw [hsplit]; simp)) hkey
      cases hanswer : answers key with
      | accepted => exact absurd hanswer hkey
      | refused status detail =>
        obtain ⟨e, hleft⟩ := @hotLoad_refused w x m answers served group name path base targets before
          after key hplan hsplit hbefore status detail hanswer
        rw [hleft]
        refine iff_of_true (allOrNothing_of_error.mpr fun _ _ => rfl) ⟨?_, hwritable⟩
        intro b k a error hs hb hk
        obtain ⟨-, rfl⟩ := split_unique (hsplit.symm.trans hs) hbefore hkey hb (by rw [hk]; simp)
        rw [hanswer] at hk
        cases hk
      | unreachable error =>
        obtain ⟨left, e, hleft, hhas⟩ := @hotLoad_unreachable w x m answers served group name path base
          targets before after key hplan hsplit hbefore error hanswer
        rw [hleft, allOrNothing_of_error, ← htargets]
        constructor
        · intro hnone
          refine ⟨fun b k a error' hs hb hk => ?_, hwritable⟩
          obtain ⟨rfl, rfl⟩ := split_unique (hsplit.symm.trans hs) hbefore hkey hb (by rw [hk]; simp)
          constructor
          · refine List.eq_nil_iff_forall_not_mem.mpr fun k' hk' => ?_
            have hfalse := hnone k' (by rw [hsplit]; simp [hk'])
            rw [hhas] at hfalse
            simp [hk'] at hfalse
          · have hfalse := hnone key (by rw [hsplit]; simp)
            rw [hhas] at hfalse
            simpa using (Bool.or_eq_false_iff.mp hfalse).2
        · rintro ⟨hclean, -⟩ k -
          obtain ⟨hnil, hserved⟩ := hclean before key after error hsplit hbefore hanswer
          rw [hhas, hnil, hserved]
          simp

end Load

/-- A `config.yaml` with two instances that may load adapters. -/
def loraYaml : Json :=
  .obj [("server", .obj [("port", .int 8887)]),
    ("LLM_engines", .obj [("chat", .obj [
      ("instances", .arr [.obj [("id", .str "a"), ("port", .int 8001)],
        .obj [("id", .str "b"), ("port", .int 8002)]]),
      ("model_config", .obj [("model_tag", .str "Qwen/Qwen3"),
        ("allow_runtime_lora", .bool true)])])])]

/-- Every instance is READY. -/
def allReady (m : Manager) : Manager :=
  { m with registry := m.registry.map fun p => (p.1, { p.2 with state := .ready }) }

/-- **Half a group**: the first instance has loaded the adapter when the connection to the second one
fails, and keeps it. -/
theorem half_loaded : ∃ m answers, boot { py := .strict, yaml := some loraYaml } none = some m ∧
    ¬ AllOrNothing (allReady m) "chat" "sql"
      (hotLoad { py := .strict, yaml := some loraYaml } {} answers (fun _ => false) "chat" "sql"
        "/lora/sql" none (allReady m) fun _ => false) := by
  let answers : String → Posted := fun key =>
    if key = "chat::b" then .unreachable "connection refused" else .accepted
  have hany : (boot { py := .strict, yaml := some loraYaml } none).any (fun m =>
      let left := hotLoad { py := .strict, yaml := some loraYaml } {} answers (fun _ => false) "chat"
        "sql" "/lora/sql" none (allReady m) fun _ => false
      decide ("chat::a" ∈ readyLoraTargets (allReady m) "chat") && left.1 "chat::a" &&
        left.2.toOption.isNone) = true := by decide +kernel
  obtain ⟨m, hm, h⟩ := (Option.any_eq_true _ _).mp hany
  refine ⟨m, answers, hm, fun hall => ?_⟩
  simp only [Bool.and_eq_true, decide_eq_true_eq] at h
  obtain ⟨⟨hready, hloaded⟩, hraised⟩ := h
  cases hleft : (hotLoad { py := .strict, yaml := some loraYaml } {} answers (fun _ => false) "chat"
      "sql" "/lora/sql" none (allReady m) fun _ => false).2 with
  | error e =>
    rw [(hall.nothing e hleft).1 "chat::a" hready] at hloaded
    cases hloaded
  | ok reply =>
    rw [hleft] at hraised
    cases hraised

end Llmops.Config
