import Llmops.Config.Command
import Llmops.Config.Flags
import Llmops.Config.Settings

/-!
# A pasted vLLM command, launched

A `vllm serve` command is parsed (`parse_vllm_command`), its settings go through the schema and the
launcher builds a command line of them again (`build_vllm_cli_args`). Two translators that know
nothing of each other have to agree on every flag.

* `parse_line`: what a line of flags is parsed to;
* `relaunched_vllm`: every flag of the line is on the command line again with its value, and no other
  is, but for the default number of GPUs and the room for adapters;
* `short_adapter_rewritten`: an adapter that was given as `name=path` comes back as JSON.
-/

namespace Llmops.Config

open Lib

/-! ## A line of flags -/

/-- An adapter as `--lora-modules` takes it: `name=path`, or a JSON object. -/
inductive Adapter where
  | short (name path : String)
  | json (text : String) (fields : Dict Json)

namespace Adapter

def word : Adapter → String
  | short name path => name ++ "=" ++ path
  | json text _ => text

def fields : Adapter → Dict Json
  | short name path => [("name", .str name), ("path", .str path)]
  | json _ fields => fields

/-- A name without an equals sign and a path, with no blanks around them; or an object with a name. -/
def Formed (rd : Reader) : Adapter → Prop
  | short name path => name ≠ "" ∧ '=' ∉ name.toList ∧ strip name = name ∧ strip path = path ∧
      ∀ obj, startsWith (name ++ "=" ++ path) "\x7b" = true →
        rd.loads (name ++ "=" ++ path) = some (.obj obj) → isSet obj "name" = false
  | json text fields => startsWith (strip text) "\x7b" = true ∧
      rd.loads (strip text) = some (.obj fields) ∧ isSet fields "name" = true

end Adapter

namespace Piece

/-- The key that a flag sets. -/
def key : Piece → String
  | spaced key _ | glued key _ | bare key => key
  | listed _ _ => "lora_modules"

/-- The value that a flag sets. -/
def value (rd : Reader) : Piece → Json
  | spaced _ value | glued _ value => coerce rd value
  | bare _ => .bool true
  | listed _ values => .arr (values.map fun v => .obj (parseLoraModule rd v))

/-- The setting that a flag becomes. -/
def setting (rd : Reader) (p : Piece) : String × Json := (snake p.key, p.value rd)

end Piece

/-- A `vllm serve` line: a model, and well-formed flags with distinct names other than the model's;
every adapter is in one of its two forms, and the served name is a text. -/
structure VllmLine (rd : Reader) (tag : String) (ps : List Piece) : Prop where
  nonempty : tag ≠ ""
  noDash : startsWith tag "-" = false
  formed : ∀ p ∈ ps, p.Formed vllmLoraFlag
  distinct : (ps.map fun p => snake p.key).Nodup
  noTag : ∀ p ∈ ps, snake p.key ≠ "model_tag"
  adapters : ∀ key values, .listed key values ∈ ps → ∃ as : List Adapter,
    as ≠ [] ∧ values = as.map Adapter.word ∧ ∀ a ∈ as, a.Formed rd
  served : ∀ p ∈ ps, snake p.key = "served_model_name" → ∃ name, p.value rd = .str name

/-- The flags of the instance, and the name that the router does not use. -/
def instanceKeys : List String := ["port", "host", "served_model_name"]

/-- Two texts of one number. -/
def SameNumber (rd : Reader) (value text : String) : Prop :=
  (∃ q, (coerce rd value).scalar = some (.num q) ∧ (coerce rd text).scalar = some (.num q)) ∨
    ∃ x, rd.float value = some x ∧ rd.float text = some x

/-- The settings that the schema declares as numbers. -/
def numberKeys : List String := ["max_model_len", "gpu_memory_utilization", "tensor_parallel_size"]

/-- A JSON object of an adapter's fields, without the null ones. -/
def SameAdapter (a : Adapter) (text : String) : Prop :=
  ∃ e : Dict Json, e.Unique ∧ text = dumps false (.obj e) ∧
    ∀ k, e.get k = (a.fields.get k).filter nonNull

/-- A flag of the new command line has the value that the pasted one had: the same text, the same
number, the form of a switch that is on or off, or the same adapters. A bare flag of a number is 1. -/
def SameFlag (rd : Reader) (f : Flag) : Piece → Prop
  | .spaced key value | .glued key value =>
    f = ⟨flagName key, [value]⟩ ∨
      (∃ text, SameNumber rd value text ∧ f = ⟨flagName key, [text]⟩) ∨
      (lower value = "true" ∧ f = ⟨flagName key, []⟩) ∨
      (lower value = "false" ∧ f = ⟨"--no-" ++ kebab key, []⟩)
  | .bare key =>
    f = ⟨flagName key, []⟩ ∨
      ∃ text, snake key ∈ numberKeys ∧ (coerce rd text).scalar = some (.num 1) ∧
        f = ⟨flagName key, [text]⟩
  | .listed _ values => ∃ as : List Adapter, values = as.map Adapter.word ∧
      (∀ a ∈ as, a.Formed rd) ∧ f.name = "--lora-modules" ∧
      List.Forall₂ SameAdapter as f.values

/-- What pydantic documents of its conversions: numbers keep their value, `True` is 1, an integer
becomes the float of its text, and a text that is no number is refused. -/
structure Pydantic.Documented (py : Pydantic) (rd : Reader) : Prop where
  int {v : Json} {n : Int} : py.int v = some n → v.asStr = none → v.scalar = some (.num n)
  float_float {x y : PyFloat} : py.float (.float y) = some x → x = y
  float_bool {b : Bool} {x : PyFloat} : py.float (.bool b) = some x →
    (Json.bool b).scalar = some (.num x.value)
  float_int {s : String} {n : Int} {x : PyFloat} : rd.int s = some n →
    py.float (.int n) = some x → rd.float s = some x
  float_repr {v : Json} {x : PyFloat} : py.float v = some x → rd.float x.repr = some x
  text {s : String} : rd.int s = none → rd.float s = none →
    py.int (.str s) = none ∧ py.float (.str s) = none

variable {rd : Reader} {py : Pydantic} {env : LaunchEnv} {tag : String} {ps : List Piece}

/-! ## The parser -/

/-- The settings of a line, before any is taken out. -/
theorem snakeKeys_line (h : VllmLine rd tag ps) :
    snakeKeys (flagsLoop rd vllmLoraFlag 0 (ps.flatMap Piece.words) []) =
      ps.map (Piece.setting rd) := by
  have hraw : Dict.Unique (ps.map fun p => (p.key, p.value rd)) := by
    unfold Dict.Unique Dict.keys
    rw [List.map_map]
    exact List.Nodup.of_map snake (by simpa [Function.comp_def] using h.distinct)
  have hloop : ps.foldl (Piece.apply rd vllmLoraFlag) [] =
      Dict.update [] (ps.map fun p => (p.key, p.value rd)) := by
    unfold Dict.update
    rw [List.foldl_map]
    congr 1
    funext flags p
    cases p <;> rfl
  rw [flagsLoop_pieces h.formed (by decide), hloop,
    Dict.update_eq_append hraw fun _ _ => List.not_mem_nil, List.nil_append]
  unfold snakeKeys
  rw [List.map_map, Dict.update_eq_append _ fun _ _ => List.not_mem_nil, List.nil_append]
  · rfl
  · unfold Dict.Unique Dict.keys
    rw [List.map_map]
    exact h.distinct

theorem unique_settings (h : VllmLine rd tag ps) : Dict.Unique (ps.map (Piece.setting rd)) := by
  unfold Dict.Unique Dict.keys
  rw [List.map_map]
  exact h.distinct

/-- The settings of a line without the instance's. -/
def lineSettings (rd : Reader) (tag : String) (ps : List Piece) : Dict Json :=
  ("model_tag", .str tag) :: (ps.map (Piece.setting rd)).filter (·.1 ∉ instanceKeys)

/-- **What a line is parsed to.** -/
theorem parse_line (h : VllmLine rd tag ps) {command : String}
    (hsplit : Shlex.split command = some (["vllm", "serve", tag] ++ ps.flatMap Piece.words)) :
    ∃ p, parseVllmCommand rd command = .ok p ∧ p.modelConfig = lineSettings rd tag ps := by
  have hnonempty : strip command ≠ "" := by
    intro hstrip
    have hv : 'v' ∈ command.toList := Shlex.mem_of_split hsplit (w := "vllm") (by simp) (by decide)
      (by decide)
    exact absurd (isSpace_of_strip hstrip hv) (by decide)
  have hwords : commandWords command =
      .ok ([], ["vllm", "serve", tag] ++ ps.flatMap Piece.words) := by
    unfold commandWords
    rw [if_neg hnonempty, hsplit]
    rfl
  have hassemble : parseVllmCommand rd command =
      assemble rd [] (some (.str tag)) (ps.map (Piece.setting rd)) [("model_tag", .str tag)] id
        "could not detect a model tag (expected `vllm serve <model>` or `--model`)" 8000 := by
    unfold parseVllmCommand
    rw [hwords]
    simp [bind, Except.bind, h.noDash, snakeKeys_line h]
  -- the served name is a text, if there is one
  have hserved : ∃ name, (((Dict.get (ps.map (Piece.setting rd)) "served_model_name").filter
      Json.truthy).mapM asText : Except Refused (Option String)) = .ok name := by
    cases hget : (Dict.get (ps.map (Piece.setting rd)) "served_model_name").filter Json.truthy with
    | none => exact ⟨none, rfl⟩
    | some v =>
      obtain ⟨p, hp, heq⟩ := List.mem_map.mp
        (Dict.mem_of_get (Option.filter_eq_some_iff.mp hget).1)
      obtain ⟨name, hname⟩ := h.served p hp (congrArg Prod.fst heq)
      have hv : v = .str name := by
        rw [← hname]
        exact (congrArg Prod.snd heq).symm
      rw [hv]
      exact ⟨some name, rfl⟩
  obtain ⟨name, hname⟩ := hserved
  have htruthy : Json.truthy (.str tag) = true := decide_eq_true h.nonempty
  rw [hassemble]
  unfold assemble
  simp only [bind, Except.bind, hname, Option.filter_some_pos htruthy, asText, Except.map]
  refine ⟨_, rfl, ?_⟩
  have hpops (d : Dict Json) : ((d.pop "port").pop "host").pop "served_model_name" =
      d.filter (·.1 ∉ instanceKeys) := by
    unfold Dict.pop
    rw [List.filter_filter, List.filter_filter]
    refine List.filter_congr fun p _ => ?_
    rw [Bool.eq_iff_iff]
    simp only [instanceKeys, Bool.and_eq_true, decide_eq_true_eq, List.mem_cons, List.not_mem_nil,
      or_false, not_or]
    exact ⟨fun h => ⟨h.2, h.1.2, h.1.1⟩, fun h => ⟨⟨h.2.2, h.2.1⟩, h.1⟩⟩
  show Dict.update [("model_tag", Json.str tag)] (((Dict.pop _ "port").pop "host").pop _) = _
  rw [hpops, Dict.update_eq_append]
  · rfl
  · exact (unique_settings h).sublist (List.filter_sublist.map Prod.fst)
  · intro k hk
    obtain ⟨q, hq, rfl⟩ := List.mem_map.mp hk
    obtain ⟨p, hp, rfl⟩ := List.mem_map.mp (List.mem_of_mem_filter hq)
    simpa [Dict.keys, Piece.setting] using h.noTag p hp

/-! ## Values -/

/-- What a value is coerced to. -/
theorem coerce_cases (rd : Reader) (value : String) :
    (lower value = "true" ∧ coerce rd value = .bool true) ∨
      (lower value = "false" ∧ coerce rd value = .bool false) ∨
      (∃ n, rd.int value = some n ∧ coerce rd value = .int n) ∨
      (∃ x, rd.float value = some x ∧ coerce rd value = .float x) ∨
      (rd.int value = none ∧ rd.float value = none ∧ coerce rd value = .str value) := by
  unfold coerce
  by_cases htrue : lower value = "true"
  · exact Or.inl ⟨htrue, if_pos htrue⟩
  by_cases hfalse : lower value = "false"
  · exact Or.inr (Or.inl ⟨hfalse, by rw [if_neg htrue, if_pos hfalse]⟩)
  rw [if_neg htrue, if_neg hfalse]
  cases hint : rd.int value with
  | some n => exact Or.inr (Or.inr (Or.inl ⟨n, rfl, rfl⟩))
  | none =>
    cases hfloat : rd.float value with
    | some x => exact Or.inr (Or.inr (Or.inr (Or.inl ⟨x, rfl, rfl⟩)))
    | none => exact Or.inr (Or.inr (Or.inr (Or.inr ⟨rfl, rfl, rfl⟩)))

/-- A coerced value is no list, no object and not null. -/
theorem coerce_scalar (rd : Reader) (value : String) : ∃ q, (coerce rd value).scalar = some q ∧
    q ≠ .null := by
  obtain ⟨-, h⟩ | ⟨-, h⟩ | ⟨n, -, h⟩ | ⟨x, -, h⟩ | ⟨-, -, h⟩ := coerce_cases rd value <;> rw [h] <;>
    exact ⟨_, rfl, by simp⟩

theorem kebab_snake (key : String) : kebab (snake key) = kebab key := by
  unfold kebab snake
  rw [← String.toList_inj, String.toList_map, String.toList_map, String.toList_map, List.map_map]
  refine List.map_congr_left fun c _ => ?_
  by_cases hc : c = '-'
  · simp [hc]
  · simp [hc]

theorem snake_lora : snake "lora_modules" = "lora_modules" := by decide +kernel

theorem flagName_snake (key : String) : flagName (snake key) = flagName key := by
  unfold flagName
  rw [kebab_snake]

/-- **A setting that the schema leaves alone** is written as it was read. -/
theorem vllmFlagOf_plain {p : Piece} (hskip : snake p.key ∉ skipCliKeys)
    (hlora : snake p.key ≠ "lora_modules") :
    ∃ f, vllmFlagOf env (p.setting rd) = some f ∧ SameFlag rd f p := by
  have hword (key value : String) (hp : p.key = key) (hv : p.value rd = coerce rd value) :
      ∃ f, vllmFlagOf env (p.setting rd) = some f ∧ SameFlag rd f (.spaced key value) := by
    have hnull : coerce rd value ≠ .null := by
      obtain ⟨q, hq, hne⟩ := coerce_scalar rd value
      intro hnull
      rw [hnull] at hq
      exact hne (Option.some.inj hq).symm
    refine ⟨_, vllmFlagOf_value hskip hlora (hv ▸ hnull), ?_⟩
    rw [hv, hp]
    obtain ⟨hlow, h⟩ | ⟨hlow, h⟩ | ⟨n, -, h⟩ | ⟨x, hx, h⟩ | ⟨-, -, h⟩ := coerce_cases rd value <;>
      rw [h] <;> unfold vllmValueFlag <;> rw [flagName_snake]
    · exact Or.inr (Or.inr (Or.inl ⟨hlow, rfl⟩))
    · rw [kebab_snake]
      exact Or.inr (Or.inr (Or.inr ⟨hlow, rfl⟩))
    · refine Or.inr (Or.inl ⟨toString n, Or.inl ⟨n, ?_, ?_⟩, rfl⟩)
      · rw [h]
        rfl
      · rw [coerce_toString]
        rfl
    · refine Or.inr (Or.inl ⟨x.repr, Or.inl ⟨x.value, ?_, ?_⟩, rfl⟩)
      · rw [h]
        rfl
      · rw [coerce_repr hx]
        rfl
    · exact Or.inl rfl
  cases p with
  | spaced key value => exact hword key value rfl rfl
  | glued key value => exact hword key value rfl rfl
  | bare key =>
    refine ⟨_, vllmFlagOf_value hskip hlora (by simp [Piece.value]), Or.inl ?_⟩
    rw [← flagName_snake]
    rfl
  | listed key values => exact absurd snake_lora hlora

/-- **A number** is written as an equal one: an integer, -/
theorem int_kept (hpy : py.Documented rd) {p : Piece} (hkey : snake p.key ∈ numberKeys) {n : Int}
    (h : py.int (p.value rd) = some n) : SameFlag rd ⟨flagName p.key, [toString n]⟩ p := by
  have hword (value : String) (h : py.int (coerce rd value) = some n) :
      SameNumber rd value (toString n) := by
    obtain ⟨-, hc⟩ | ⟨-, hc⟩ | ⟨_, -, hc⟩ | ⟨_, -, hc⟩ | ⟨hint, hfloat, hc⟩ := coerce_cases rd value
    case inr.inr.inr.inr =>
      rw [hc, (hpy.text hint hfloat).1] at h
      cases h
    all_goals
      have hscalar := hpy.int h (by rw [hc]; rfl)
      exact Or.inl ⟨n, hscalar, by rw [coerce_toString]; rfl⟩
  cases p with
  | spaced key value | glued key value =>
    exact Or.inr (Or.inl ⟨_, hword value h, rfl⟩)
  | bare key =>
    refine Or.inr ⟨_, hkey, ?_, rfl⟩
    have hone : (Json.bool true).scalar = some (.num n) := hpy.int h rfl
    rw [coerce_toString]
    exact hone.symm
  | listed key values =>
    rw [show (Piece.listed key values).key = "lora_modules" from rfl, snake_lora] at hkey
    exact absurd hkey (by decide)

/-- or a float. -/
theorem float_kept (hpy : py.Documented rd) {p : Piece} (hkey : snake p.key ∈ numberKeys)
    {x : PyFloat} (h : py.float (p.value rd) = some x) :
    SameFlag rd ⟨flagName p.key, [x.repr]⟩ p := by
  have hrepr := hpy.float_repr h
  have hword (value : String) (h : py.float (coerce rd value) = some x) :
      SameNumber rd value x.repr := by
    obtain ⟨-, hc⟩ | ⟨-, hc⟩ | ⟨n, hn, hc⟩ | ⟨y, hy, hc⟩ | ⟨hint, hfloat, hc⟩ :=
      coerce_cases rd value <;> rw [hc] at h
    · refine Or.inl ⟨x.value, ?_, by rw [coerce_repr hrepr]; rfl⟩
      rw [hc, hpy.float_bool h]
    · refine Or.inl ⟨x.value, ?_, by rw [coerce_repr hrepr]; rfl⟩
      rw [hc, hpy.float_bool h]
    · exact Or.inr ⟨x, hpy.float_int hn h, hrepr⟩
    · exact Or.inr ⟨x, hpy.float_float h ▸ hy, hrepr⟩
    · rw [(hpy.text hint hfloat).2] at h
      cases h
  cases p with
  | spaced key value | glued key value =>
    exact Or.inr (Or.inl ⟨_, hword value h, rfl⟩)
  | bare key =>
    refine Or.inr ⟨_, hkey, ?_, rfl⟩
    rw [coerce_repr hrepr]
    exact (hpy.float_bool h).symm
  | listed key values =>
    rw [show (Piece.listed key values).key = "lora_modules" from rfl, snake_lora] at hkey
    exact absurd hkey (by decide)

/-! ## Adapters -/

/-- An adapter in one of its two forms is read as its fields. -/
theorem parseLoraModule_word {a : Adapter} (h : a.Formed rd) :
    parseLoraModule rd a.word = a.fields := by
  unfold parseLoraModule
  cases a with
  | json text fields =>
    obtain ⟨hbrace, hloads, hname⟩ := h
    simp only [Adapter.word, Adapter.fields, hbrace, if_true, hloads, hname]
  | short name path =>
    obtain ⟨-, heq, hname, hpath, hjson⟩ := h
    have hword : (name ++ "=" ++ path).toList = name.toList ++ '=' :: path.toList := by simp
    have hstrip : strip (name ++ "=" ++ path) = name ++ "=" ++ path := by
      rw [strip_eq_self_iff] at hname hpath ⊢
      rw [hword]
      constructor
      · intro c hc
        cases hlist : name.toList with
        | nil =>
          rw [hlist] at hc
          rw [← Option.some.inj hc]
          decide
        | cons d ds =>
          rw [hlist] at hc hname
          exact hname.1 c hc
      · intro c hc
        rw [List.getLast?_append, List.getLast?_cons] at hc
        cases hlast : path.toList.getLast? with
        | none =>
          rw [hlast] at hc
          rw [← Option.some.inj hc]
          decide
        | some d =>
          rw [hlast] at hc
          exact hpath.2 c (by rw [hlast]; exact hc)
    have hshort : shortLora (name ++ "=" ++ path) = [("name", .str name), ("path", .str path)] := by
      unfold shortLora
      rw [hword, splitFirst_singleton heq]
      simp only [String.ofList_toList, hname, hpath]
    simp only [Adapter.word, Adapter.fields, hstrip, hshort]
    by_cases hbrace : startsWith (name ++ "=" ++ path) "\x7b" = true
    · rw [if_pos hbrace]
      cases hloads : rd.loads (name ++ "=" ++ path) with
      | none => rfl
      | some v =>
        cases v with
        | obj obj => simp only [hjson obj hbrace hloads, Bool.false_eq_true, if_false]
        | _ => rfl
    · rw [if_neg hbrace]

/-- Adapters that have been through the schema are all written. -/
theorem vllmLoraModules_dumps {ms : List LoraModule} (h : ∀ m ∈ ms, m.name ≠ "") :
    vllmLoraModules (.arr (ms.map fun m => .obj m.dump)) =
      some (ms.map fun m => Dict.filterValues nonNull m.dump) := by
  have htruthy : (ms.map fun m => Json.obj m.dump).filter Json.truthy =
      ms.map fun m => .obj m.dump := by
    refine List.filter_eq_self.mpr fun v hv => ?_
    obtain ⟨m, -, rfl⟩ := List.mem_map.mp hv
    rfl
  have hobjs : (ms.map fun m => Json.obj m.dump).mapM Json.asObj =
      some (ms.map LoraModule.dump) := by
    rw [mapM_eq_some_iff, List.forall₂_map_left_iff, List.forall₂_map_right_iff]
    exact List.forall₂_same.mpr fun _ _ => rfl
  have hnames : (ms.map fun m => Dict.filterValues nonNull m.dump).filter (isSet · "name") =
      ms.map fun m => Dict.filterValues nonNull m.dump := by
    refine List.filter_eq_self.mpr fun d hd => ?_
    obtain ⟨m, hm, rfl⟩ := List.mem_map.mp hd
    unfold isSet
    rw [Dict.get_filterValues m.unique_dump,
      show m.dump.get "name" = some (.str m.name) from rfl]
    exact decide_eq_true (h m hm)
  unfold vllmLoraModules
  simp only [Json.iter, Option.bind_eq_bind, Option.bind_some, htruthy, hobjs, Option.pure_def,
    List.map_map]
  exact congrArg some hnames

/-- **The adapters** of a flag are those of the command line. -/
theorem adapters_kept {as : List Adapter} {values : List String} {key : String}
    {ms : List LoraModule} (hne : as ≠ []) (hvalues : values = as.map Adapter.word)
    (has : ∀ a ∈ as, a.Formed rd)
    (h : (as.map fun a => Json.obj a.fields).mapM LoraModule.validate = some ms) :
    ∃ f, vllmFlagOf env ("lora_modules", .arr (ms.map fun m => .obj m.dump)) = some f ∧
      SameFlag rd f (.listed key values) := by
  have hall : List.Forall₂ (fun a m => LoraModule.validate (.obj (Adapter.fields a)) = some m)
      as ms := by
    rw [mapM_eq_some_iff, List.forall₂_map_left_iff] at h
    exact h
  have hnames : ∀ m ∈ ms, m.name ≠ "" := by
    intro m hm
    have hmem : some m ∈ (as.map fun a => Json.obj a.fields).map LoraModule.validate := by
      rw [map_of_mapM h]
      exact List.mem_map_of_mem hm
    rw [List.map_map] at hmem
    obtain ⟨a, ha, hval⟩ := List.mem_map.mp hmem
    have hname := (LoraModule.validate_eq_some hval).2.1
    have hformed := has a ha
    cases a with
    | short name path =>
      cases hname
      exact hformed.1
    | json text fields =>
      have hset : isSet fields "name" = true := hformed.2.2
      unfold isSet at hset
      rw [show Dict.get fields "name" = _ from hname] at hset
      exact of_decide_eq_true hset
  have hms : ms ≠ [] := by
    rintro rfl
    exact hne (List.forall₂_nil_right_iff.mp hall)
  have hflag : flagName "lora_modules" = "--lora-modules" := by decide +kernel
  have hskip : "lora_modules" ∉ skipCliKeys := by decide
  refine ⟨⟨flagName "lora_modules",
    ms.map fun m => dumps false (.obj (Dict.filterValues nonNull m.dump))⟩, ?_, as, hvalues, has,
    hflag, ?_⟩
  · unfold vllmFlagOf
    rw [if_neg hskip]
    simp only [if_true, vllmLoraModules_dumps hnames, Option.bind_some, List.isEmpty_map]
    rw [if_neg (by simpa using hms), List.map_map]
    rfl
  · rw [List.forall₂_map_right_iff]
    refine hall.imp fun a m hval => ?_
    exact ⟨_, m.unique_dump.filterValues _, rfl, LoraModule.get_nonNull_dump hval⟩

/-! ## The settings through the schema -/

theorem Piece.value_ne_null (p : Piece) : p.value rd ≠ .null := by
  have hcoerce (value : String) : coerce rd value ≠ .null := by
    obtain ⟨q, hq, hne⟩ := coerce_scalar rd value
    intro hnull
    rw [hnull] at hq
    exact hne (Option.some.inj hq).symm
  cases p with
  | spaced key value | glued key value => exact hcoerce value
  | bare key | listed key values => exact Json.noConfusion

/-- Only a list of adapters is no scalar. -/
theorem Piece.scalar_or_listed (p : Piece) :
    (∃ q, (p.value rd).scalar = some q) ∨ ∃ key values, p = .listed key values := by
  cases p with
  | spaced key value | glued key value =>
    obtain ⟨q, hq, -⟩ := coerce_scalar rd value
    exact Or.inl ⟨q, hq⟩
  | bare key => exact Or.inl ⟨_, rfl⟩
  | listed key values => exact Or.inr ⟨key, values, rfl⟩

/-- A flag of the line that is not the instance's is a setting. -/
theorem get_line (h : VllmLine rd tag ps) {p : Piece} (hp : p ∈ ps)
    (hinst : snake p.key ∉ instanceKeys) :
    (lineSettings rd tag ps).get (snake p.key) = some (p.value rd) := by
  unfold lineSettings
  rw [Dict.get_cons_ne (h.noTag p hp)]
  refine Dict.get_of_mem ((unique_settings h).sublist (List.filter_sublist.map Prod.fst)) ?_
  exact List.mem_filter.mpr ⟨List.mem_map_of_mem hp, decide_eq_true hinst⟩

variable {c : EngineModelConfig} {p : Piece}

/-- **A flag is kept**: what the schema makes of its setting is written as the same flag. -/
theorem flag_kept (h : VllmLine rd tag ps) (hpy : py.Documented rd)
    (hc : EngineModelConfig.validate py (.obj (lineSettings rd tag ps)) = some c) (hp : p ∈ ps)
    (hinst : snake p.key ∉ instanceKeys) (hskip : snake p.key ∉ skipCliKeys) :
    ∃ w f, c.dump.get (snake p.key) = some w ∧ vllmFlagOf env (snake p.key, w) = some f ∧
      SameFlag rd f p := by
  have hget := get_line h hp hinst
  have hnull := @Piece.value_ne_null rd p
  by_cases hdeclared : snake p.key ∈ settingsFields
  swap
  · have hlora : snake p.key ≠ "lora_modules" := fun heq => hdeclared (heq ▸ by decide)
    obtain ⟨f, hf, hsame⟩ := @vllmFlagOf_plain rd env p hskip hlora
    exact ⟨_, f, (EngineModelConfig.get_dump_of_notMem hc hdeclared).trans hget, hf, hsame⟩
  obtain ⟨-, -, hdtype, hlen, hgpu, htp, hlora, hkv, -⟩ := EngineModelConfig.validate_eq_some hc
  -- a declared field has the value of the flag
  have hfield {α : Type} {key : String} {default a : α} {f : Json → Option α}
      (hkey : snake p.key = key)
      (hval : withDefault (lineSettings rd tag ps) key default f = some a) :
      f (p.value rd) = some a := by
    obtain ⟨hn, -⟩ | ⟨v, hv, hf⟩ := withDefault_eq_some.mp hval
    · rw [← hkey, hget] at hn
      cases hn
    · rw [← hkey, hget] at hv
      rwa [Option.some.inj hv]
  have hvalue {key : String} {w : Json} (hkey : snake p.key = key) (hw : w ≠ .null)
      (hnotLora : key ≠ "lora_modules") :
      vllmFlagOf env (key, w) = some (vllmValueFlag env key w) :=
    vllmFlagOf_value (hkey ▸ hskip) hnotLora hw
  simp only [settingsFields, List.mem_cons, List.not_mem_nil, or_false] at hdeclared
  rcases hdeclared with hkey | hkey | hkey | hkey | hkey | hkey | hkey | hkey | hkey
  · exact absurd hkey (h.noTag p hp)
  · exact absurd (hkey ▸ by decide) hskip
  · exact absurd (hkey ▸ by decide) hskip
  · obtain ⟨s, hs, hstr⟩ := optional_eq_some (hfield hkey hdtype) hnull
    obtain ⟨f, hf, hsame⟩ := @vllmFlagOf_plain rd env p hskip (hkey ▸ by decide)
    refine ⟨p.value rd, f, ?_, hf, hsame⟩
    rw [hkey, Json.asStr_eq_some.mp hstr,
      show c.dump.get "dtype" = some (.ofOption .str c.dtype) from rfl, hs]
    rfl
  · obtain ⟨n, hn, hint⟩ := optional_eq_some (hfield hkey hlen) hnull
    refine ⟨.int n, _, ?_, ?_, int_kept hpy (hkey ▸ by decide) hint⟩
    · rw [hkey, show c.dump.get "max_model_len" = some (.ofOption .int c.maxModelLen) from rfl, hn]
      rfl
    · rw [← flagName_snake, hkey]
      exact hvalue hkey (by simp) (by decide)
  · obtain ⟨x, hx, hfloat⟩ := optional_eq_some (hfield hkey hgpu) hnull
    refine ⟨.float x, _, ?_, ?_, float_kept hpy (hkey ▸ by decide) hfloat⟩
    · rw [hkey, show c.dump.get "gpu_memory_utilization" =
        some (.ofOption .float c.gpuMemoryUtilization) from rfl, hx]
      rfl
    · rw [← flagName_snake, hkey]
      exact hvalue hkey (by simp) (by decide)
  · have hint := hfield hkey htp
    refine ⟨.int c.tensorParallelSize, _, ?_, ?_, int_kept hpy (hkey ▸ by decide) hint⟩
    · rw [hkey]
      rfl
    · rw [← flagName_snake, hkey]
      exact hvalue hkey (by simp) (by decide)
  · obtain ⟨ms, hms, hlist⟩ := optional_eq_some (hfield hkey hlora) hnull
    obtain ⟨xs, hxs, hmap⟩ := listOf_eq_some.mp hlist
    rcases @Piece.scalar_or_listed rd p with ⟨q, hq⟩ | ⟨key, values, rfl⟩
    · rw [hxs] at hq
      cases hq
    obtain ⟨as, hne, hvalues, has⟩ := h.adapters key values hp
    have hfields : xs = as.map fun a => Json.obj a.fields := by
      have hxs : Json.arr (values.map fun v => .obj (parseLoraModule rd v)) = .arr xs := hxs
      rw [← Json.arr.inj hxs, hvalues, List.map_map]
      refine List.map_congr_left fun a ha => ?_
      exact congrArg Json.obj (parseLoraModule_word (has a ha))
    rw [hfields] at hmap
    obtain ⟨f, hf, hsame⟩ := @adapters_kept rd env as values key ms hne hvalues has hmap
    refine ⟨_, f, ?_, hkey ▸ hf, hsame⟩
    rw [hkey, show c.dump.get "lora_modules" =
      some (.ofOption (fun ms => .arr (ms.map (.obj ·.dump))) c.loraModules) from rfl, hms]
    rfl
  · obtain ⟨d, -, hobj⟩ := optional_eq_some (hfield hkey hkv) hnull
    rcases @Piece.scalar_or_listed rd p with ⟨q, hq⟩ | ⟨key, values, rfl⟩
    · rw [Json.asObj_eq_some.mp hobj] at hq
      cases hq
    · exact absurd (snake_lora.symm.trans hkey) (by decide)

/-- The flags that the line has not: the default number of GPUs, and room for adapters. -/
inductive AddedFlag (rd : Reader) (ps : List Piece) : Flag → Prop
  | tensorParallel (hnone : ∀ p ∈ ps, snake p.key ≠ "tensor_parallel_size") :
    AddedFlag rd ps ⟨"--tensor-parallel-size", ["1"]⟩
  | maxLoras (hnone : ∀ p ∈ ps, snake p.key ≠ "max_loras")
    (hlora : ∃ p ∈ ps, snake p.key = "enable_lora" ∧ (p.value rd).truthy = true) :
    AddedFlag rd ps ⟨"--max-loras", ["4"]⟩

/-- A setting of the line other than the model is a flag of it. -/
theorem exists_of_get_line {key : String} {v : Json} (hkey : key ≠ "model_tag")
    (h : (lineSettings rd tag ps).get key = some v) :
    ∃ p ∈ ps, snake p.key = key ∧ p.value rd = v ∧ key ∉ instanceKeys := by
  unfold lineSettings at h
  rw [Dict.get_cons_ne hkey] at h
  obtain ⟨hmem, hinst⟩ := List.mem_filter.mp (Dict.mem_of_get h)
  obtain ⟨p, hp, heq⟩ := List.mem_map.mp hmem
  exact ⟨p, hp, congrArg Prod.fst heq, congrArg Prod.snd heq, of_decide_eq_true hinst⟩

/-- A setting that the line has not is a default. -/
theorem default_flag (h : VllmLine rd tag ps)
    (hc : EngineModelConfig.validate py (.obj (lineSettings rd tag ps)) = some c) {key : String}
    (hline : (lineSettings rd tag ps).get key = none) {w : Json} (hget : c.dump.get key = some w)
    {f : Flag} (hflag : vllmFlagOf env (key, w) = some f) (hskip : key ∉ skipCliKeys)
    (hnull : w ≠ .null) : AddedFlag rd ps f := by
  obtain ⟨-, -, hdtype, hlen, hgpu, htp, hlora, hkv, -⟩ := EngineModelConfig.validate_eq_some hc
  have hdefault {α : Type} {default a : α} {g : Json → Option α}
      (hval : withDefault (lineSettings rd tag ps) key default g = some a) : a = default := by
    obtain ⟨-, ha⟩ | ⟨v, hv, -⟩ := withDefault_eq_some.mp hval
    · exact ha
    · rw [hline] at hv
      cases hv
  -- a field that may be null is
  have habsent {α : Type} {g : α → Json} {o : Option α} (ho : o = none)
      (hw : some (Json.ofOption g o) = some w) : AddedFlag rd ps f := by
    rw [ho] at hw
    exact absurd (Option.some.inj hw).symm hnull
  by_cases hdeclared : key ∈ settingsFields
  swap
  · rw [EngineModelConfig.get_dump_of_notMem hc hdeclared, hline] at hget
    cases hget
  simp only [settingsFields, List.mem_cons, List.not_mem_nil, or_false] at hdeclared
  rcases hdeclared with rfl | rfl | rfl | rfl | rfl | rfl | rfl | rfl | rfl
  · exact absurd (by decide) hskip
  · exact absurd (by decide) hskip
  · exact absurd (by decide) hskip
  · exact habsent (hdefault hdtype) hget
  · exact habsent (hdefault hlen) hget
  · exact habsent (hdefault hgpu) hget
  · have hw : some (Json.int c.tensorParallelSize) = some w := hget
    rw [hdefault htp, Option.some.injEq] at hw
    have hname : f = ⟨"--tensor-parallel-size", ["1"]⟩ := by
      rw [← hw, vllmFlagOf_value hskip (by decide) (by simp)] at hflag
      rw [← Option.some.inj hflag]
      unfold vllmValueFlag
      rw [show flagName "tensor_parallel_size" = "--tensor-parallel-size" by decide +kernel]
      rfl
    rw [hname]
    refine .tensorParallel fun p hp hkey => ?_
    have hget := get_line h hp (hkey ▸ by decide)
    rw [hkey, hline] at hget
    cases hget
  · exact habsent (hdefault hlora) hget
  · exact habsent (hdefault hkv) hget

/-- The room for adapters is added to a line that switches them on. -/
theorem maxLoras_flag (h : VllmLine rd tag ps)
    (hc : EngineModelConfig.validate py (.obj (lineSettings rd tag ps)) = some c)
    (hset : isSet c.dump "enable_lora" = true) (hmax : "max_loras" ∉ c.dump.keys) {f : Flag}
    (hflag : vllmFlagOf env ("max_loras", .int 4) = some f) : AddedFlag rd ps f := by
  have hname : f = ⟨"--max-loras", ["4"]⟩ := by
    rw [vllmFlagOf_value (by decide) (by decide) (by simp)] at hflag
    rw [← Option.some.inj hflag]
    unfold vllmValueFlag
    rw [show flagName "max_loras" = "--max-loras" by decide +kernel]
    rfl
  obtain ⟨v, hv, htruthy⟩ := (Option.any_eq_true _ _).mp hset
  rw [EngineModelConfig.get_dump_of_notMem hc (by decide)] at hv
  obtain ⟨p, hp, hkey, rfl, -⟩ := exists_of_get_line (by decide) hv
  rw [hname]
  refine .maxLoras (fun p hp hkey => ?_) ⟨p, hp, hkey, htruthy⟩
  have hget := get_line h hp (hkey ▸ by decide)
  rw [hkey, ← EngineModelConfig.get_dump_of_notMem hc (by decide)] at hget
  exact hmax (List.mem_map.mpr ⟨_, Dict.mem_of_get hget, rfl⟩)

/-- **A flag comes from the line**, or is one of the two that are added. -/
theorem flag_from_line (h : VllmLine rd tag ps) (hpy : py.Documented rd)
    (hc : EngineModelConfig.validate py (.obj (lineSettings rd tag ps)) = some c) {f : Flag}
    (hf : f ∈ (withMaxLoras c.dump).filterMap (vllmFlagOf env)) :
    (∃ p ∈ ps, SameFlag rd f p) ∨ AddedFlag rd ps f := by
  obtain ⟨⟨key, w⟩, hmem, hflag⟩ := List.mem_filterMap.mp hf
  have hskip : key ∉ skipCliKeys := by
    intro hskip
    unfold vllmFlagOf at hflag
    rw [if_pos hskip] at hflag
    cases hflag
  have hnull : w ≠ .null := by
    rintro rfl
    unfold vllmFlagOf at hflag
    rw [if_neg hskip] at hflag
    cases hflag
  rw [withMaxLoras_eq, List.mem_append] at hmem
  rcases hmem with hmem | hmem
  · have hget := Dict.get_of_mem c.unique_dump hmem
    cases hline : (lineSettings rd tag ps).get key with
    | none => exact Or.inr (default_flag h hc hline hget hflag hskip hnull)
    | some v =>
      have htag : key ≠ "model_tag" := fun heq => hskip (heq ▸ by decide)
      obtain ⟨p, hp, rfl, -, hinst⟩ := exists_of_get_line htag hline
      obtain ⟨w', f', hget', hflag', hsame⟩ := @flag_kept rd py env tag ps c p h hpy hc hp hinst hskip
      rw [hget, Option.some.injEq] at hget'
      rw [← hget', hflag, Option.some.injEq] at hflag'
      exact Or.inl ⟨p, hp, hflag' ▸ hsame⟩
  · split_ifs at hmem with hmax
    · cases List.mem_singleton.mp hmem
      exact Or.inr (maxLoras_flag h hc hmax.1 hmax.2 hflag)
    · cases hmem

/-- **A pasted vLLM command is launched as it was pasted**: the command line has the same model, every
flag of the line but the instance's and the launcher's with its value, and no other flag but the
default number of GPUs and the room for adapters. -/
theorem relaunched_vllm (h : VllmLine rd tag ps) (hpy : py.Documented rd) {command : String}
    (hsplit : Shlex.split command = some (["vllm", "serve", tag] ++ ps.flatMap Piece.words)) :
    ∃ parsed, parseVllmCommand rd command = .ok parsed ∧
      ∀ c, EngineModelConfig.validate py (.obj parsed.modelConfig) = some c →
        ∃ flags : List Flag,
          buildVllmCliArgs env c.dump = .ok (["serve", tag] ++ flags.flatMap Flag.words) ∧
          (∀ p ∈ ps, snake p.key ∉ instanceKeys → snake p.key ∉ skipCliKeys →
            ∃ f ∈ flags, SameFlag rd f p) ∧
          ∀ f ∈ flags, (∃ p ∈ ps, SameFlag rd f p) ∨ AddedFlag rd ps f := by
  obtain ⟨parsed, hparsed, hconfig⟩ := parse_line h hsplit
  refine ⟨parsed, hparsed, fun c hc => ?_⟩
  rw [hconfig] at hc
  have htag : c.modelTag = tag := by
    have hget := (EngineModelConfig.validate_eq_some hc).2.1
    exact (Json.str.inj (Option.some.inj hget)).symm
  obtain ⟨args, hargs⟩ := buildVllmCliArgs_isOk.mpr
    (EngineModelConfig.commandLine_dump (htag ▸ h.nonempty) .vllm)
  obtain ⟨tag', htag', -, heq⟩ := buildVllmCliArgs_eq_ok hargs
  refine ⟨(withMaxLoras c.dump).filterMap (vllmFlagOf env), ?_, fun p hp hinst hskip => ?_,
    fun f hf => flag_from_line h hpy hc hf⟩
  · rw [hargs, heq]
    rw [show c.dump.get "model_tag" = some (.str c.modelTag) from rfl, htag, Option.some.injEq]
      at htag'
    rw [← htag']
    rfl
  · obtain ⟨w, f, hget, hflag, hsame⟩ := flag_kept h hpy hc hp hinst hskip
    refine ⟨f, List.mem_filterMap.mpr ⟨_, ?_, hflag⟩, hsame⟩
    rw [withMaxLoras_eq]
    exact List.mem_append_left _ (Dict.mem_of_get hget)

/-- Conversions of values that have the type, and of floats that the reader reads back. -/
def decimalPydantic : Pydantic where
  int := Pydantic.strict.int
  float
    | .float x => if decimalReader.float x.repr = some x then some x else none
    | _ => none
  bool _ := none
  int_int := Pydantic.strict.int_int

theorem decimalPydantic_documented : decimalPydantic.Documented decimalReader where
  int := by
    intro v n h hstr
    cases v with
    | int m =>
      cases h
      rfl
    | _ => cases h
  float_float := by
    intro x y h
    change (if decimalReader.float y.repr = some y then some y else none) = some x at h
    split_ifs at h
    exact (Option.some.inj h).symm
  float_bool h := by cases h
  float_int _ h := by cases h
  float_repr := by
    intro v x h
    cases v with
    | float y =>
      change (if decimalReader.float y.repr = some y then some y else none) = some x at h
      split_ifs at h with hy
      cases h
      exact hy
    | _ => cases h
  text _ _ := ⟨rfl, rfl⟩

def pastedCommand : String :=
  "vllm serve Qwen/Qwen3 --dtype auto --max-model-len 4096 --gpu-memory-utilization=0.85 " ++
    "--enforce-eager --lora-modules sql=repo/sql"

def pastedPieces : List Piece :=
  [.spaced "dtype" "auto", .spaced "max-model-len" "4096",
    .glued "gpu-memory-utilization" "0.85", .bare "enforce-eager",
    .listed "lora-modules" ["sql=repo/sql"]]

theorem pasted_line : VllmLine decimalReader "Qwen/Qwen3" pastedPieces where
  nonempty := by decide
  noDash := by decide +kernel
  formed := by decide +kernel
  distinct := by decide +kernel
  noTag := by decide +kernel
  adapters := by
    intro key values hmem
    simp only [pastedPieces, List.mem_cons, reduceCtorEq, false_or, List.not_mem_nil, or_false,
      Piece.listed.injEq] at hmem
    refine ⟨[.short "sql" "repo/sql"], by simp, hmem.2, fun a ha => ?_⟩
    rw [List.mem_singleton.mp ha]
    exact ⟨by decide, by decide, by decide +kernel, by decide +kernel, fun _ _ h => by cases h⟩
  served := by
    intro p hp hserved
    have hnone : ∀ p ∈ pastedPieces, snake p.key ≠ "served_model_name" := by decide +kernel
    exact absurd hserved (hnone p hp)

theorem relaunched_vllm_adapter : ∃ parsed c, ∃ flags : List Flag,
    parseVllmCommand decimalReader pastedCommand = .ok parsed ∧
    EngineModelConfig.validate decimalPydantic (.obj parsed.modelConfig) = some c ∧
    buildVllmCliArgs {} c.dump = .ok (["serve", "Qwen/Qwen3"] ++ flags.flatMap Flag.words) ∧
    ∃ f ∈ flags, SameFlag decimalReader f (.listed "lora-modules" ["sql=repo/sql"]) := by
  have hvalid : ((parseVllmCommand decimalReader pastedCommand).toOption.any fun parsed =>
      (EngineModelConfig.validate decimalPydantic (.obj parsed.modelConfig)).isSome) = true := by
    decide +kernel
  obtain ⟨parsed, hparsed, hc⟩ := (Option.any_eq_true _ _).mp hvalid
  obtain ⟨c, hc⟩ := Option.isSome_iff_exists.mp hc
  obtain ⟨parsed', hparsed', hall⟩ := @relaunched_vllm _ _ {} _ _ pasted_line
    decimalPydantic_documented pastedCommand (by decide +kernel)
  cases (toOption_eq_some.mp hparsed).symm.trans hparsed'
  obtain ⟨flags, hbuild, hforward, -⟩ := hall c hc
  refine ⟨parsed, c, flags, hparsed', hc, hbuild, hforward _ ?_ ?_ ?_⟩
  · exact List.mem_cons_of_mem _ (by simp)
  · decide +kernel
  · decide +kernel

/-- Adapters do not come back with their text: one in the short form is
written as JSON. -/
theorem short_adapter_rewritten : ∃ parsed c args,
    parseVllmCommand decimalReader "vllm serve m --lora-modules sql=repo/sql" = .ok parsed ∧
    EngineModelConfig.validate decimalPydantic (.obj parsed.modelConfig) = some c ∧
    buildVllmCliArgs {} c.dump = .ok args ∧ "--lora-modules" ∈ args ∧ "sql=repo/sql" ∉ args := by
  have hargs : ((parseVllmCommand decimalReader
      "vllm serve m --lora-modules sql=repo/sql").toOption.any fun parsed =>
        (EngineModelConfig.validate decimalPydantic (.obj parsed.modelConfig)).any fun c =>
          (buildVllmCliArgs {} c.dump).toOption.any fun args =>
            decide ("--lora-modules" ∈ args ∧ "sql=repo/sql" ∉ args)) = true := by
    decide +kernel
  obtain ⟨parsed, hparsed, hc⟩ := (Option.any_eq_true _ _).mp hargs
  obtain ⟨c, hc, hargs⟩ := (Option.any_eq_true _ _).mp hc
  obtain ⟨args, hbuild, hmem⟩ := (Option.any_eq_true _ _).mp hargs
  exact ⟨parsed, c, args, toOption_eq_some.mp hparsed, hc, toOption_eq_some.mp hbuild,
    of_decide_eq_true hmem⟩

end Llmops.Config
