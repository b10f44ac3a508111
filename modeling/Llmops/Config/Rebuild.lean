import Llmops.Config.Paste
import Llmops.Lib.Rename

/-!
# An SGLang command, built, parsed and built again

What `build_sglang_cli_args` makes of settings is parsed by `parse_sglang_command`, and a command
line is built of the result. The parser renames the three flags that SGLang has other names for back
(`_SGLANG_REVERSE_MAP`), so the settings come in another order.

* `parse_built`: what the parser makes of the command line;
* `rebuilt_sglang`: the second command line has the flags of the first, with the default host and
  port where the first had none;
* `served_name_lost`: a served name other than the model is not kept.
-/

namespace Llmops.Config

open Lib

variable {rd : Reader} {env : LaunchEnv} {cfg : Dict Json} {tag : String} {paths : List String}

/-- A text that stands for itself on a command line: it does not look like a flag, and what it is
read as is no boolean and is written as it. -/
structure ReadBack (rd : Reader) (env : LaunchEnv) (text : String) : Prop where
  noDash : startsWith text "-" = false
  notTrue : lower text ≠ "true"
  notFalse : lower text ≠ "false"
  same : env.str (coerce rd text) = text

instance (rd : Reader) (env : LaunchEnv) (text : String) : Decidable (ReadBack rd env text) :=
  decidable_of_iff (startsWith text "-" = false ∧ lower text ≠ "true" ∧ lower text ≠ "false" ∧
      env.str (coerce rd text) = text)
    ⟨fun h => ⟨h.1, h.2.1, h.2.2.1, h.2.2.2⟩, fun h => ⟨h.noDash, h.notTrue, h.notFalse, h.same⟩⟩

/-- A value whose flag is read back: a switch, a number that is not negative, an object, a text that
stands for itself, or a list of at most one value with such a text. -/
def KeptValue (rd : Reader) (env : LaunchEnv) : Json → Prop
  | .null | .bool _ | .obj _ => True
  | .int n => 0 ≤ n
  | .float x => startsWith x.repr "-" = false ∧ rd.float x.repr = some x
  | .str s => ReadBack rd env s
  | .arr xs => xs.length ≤ 1 ∧ ∀ x ∈ xs, ReadBack rd env (env.str x)

instance (rd : Reader) (env : LaunchEnv) (v : Json) : Decidable (KeptValue rd env v) :=
  match v with
  | .null | .bool _ | .obj _ => .isTrue trivial
  | .int n => inferInstanceAs (Decidable (0 ≤ n))
  | .float _ => inferInstanceAs (Decidable (_ ∧ _))
  | .str s => inferInstanceAs (Decidable (ReadBack rd env s))
  | .arr xs => inferInstanceAs (Decidable (xs.length ≤ 1 ∧ ∀ x ∈ xs, ReadBack rd env (env.str x)))

/-- The flags that the builder makes itself, leaves out, or has another name for. -/
def sglangOwnFlags : List String :=
  (sglangSkipCliKeys ++ sglangParamMap.keys ++ ["model", "model_path", "lora_paths"]).map flagName

/-- The flags of the settings. -/
def settingFlags (env : LaunchEnv) (cfg : Dict Json) : List Flag := cfg.filterMap (sglangFlagOf env)

/-- Settings whose command line is read back: a model that stands for itself and is served under its
own name, adapters in the short form, and settings with values that are kept and distinct flags, none
of which is one of the builder's own. -/
structure SglangSettings (rd : Reader) (env : LaunchEnv) (cfg : Dict Json) (tag : String) : Prop where
  tag_eq : cfg.get "model_tag" = some (.str tag)
  nonempty : tag ≠ ""
  tagText : coerce rd tag = .str tag
  tagDash : startsWith tag "-" = false
  served : ∀ v, cfg.get "served_model_name" = some v → v.truthy = true → env.str v = tag
  kept : ∀ p ∈ cfg, p.1 ∉ sglangSkipCliKeys → KeptValue rd env p.2
  keys : ∀ p ∈ cfg, p.1 ∉ sglangSkipCliKeys →
    '=' ∉ p.1.toList ∧ flagName (sglangName p.1) ∉ sglangOwnFlags
  distinct : ((settingFlags env cfg).map Flag.name).Nodup
  adapters : ∀ paths, sglangLoraPaths env (loraModules cfg) = some paths → ∀ word ∈ paths,
    loraValue word = true ∧ ∃ name path, word = name ++ "=" ++ path ∧ path ≠ "" ∧
      (Adapter.short name path).Formed rd

/-- Python reads no text that begins with a brace as a number. -/
def Reader.NoBrace (rd : Reader) : Prop :=
  ∀ s, startsWith s "\x7b" = true → rd.int s = none ∧ rd.float s = none

/-! ## Flags that are read back -/

/-- The values of a flag are read back. -/
def Flag.Kept (rd : Reader) (env : LaunchEnv) (f : Flag) : Prop :=
  f.values = [] ∨ ∃ text, f.values = [text] ∧ ReadBack rd env text

theorem toString_noDash {n : Int} (h : 0 ≤ n) : startsWith (toString n) "-" = false := by
  obtain ⟨m, rfl⟩ := Int.eq_ofNat_of_zero_le h
  rw [← Bool.not_eq_true, startsWith_iff]
  intro hdash
  have hmem : '-' ∈ Nat.toDigits 10 m := by
    rw [← Nat.toList_repr]
    exact hdash.subset List.mem_cons_self
  exact absurd (Nat.isDigit_of_mem_toDigits (by decide) (by decide) hmem) (by decide)

theorem readBack_int {n : Int} (h : 0 ≤ n) : ReadBack rd env (toString n) where
  noDash := toString_noDash h
  notTrue := lower_toString_ne n (by decide)
  notFalse := lower_toString_ne n (by decide)
  same := by
    rw [coerce_toString]
    rfl

theorem readBack_float {x : PyFloat} (hdash : startsWith x.repr "-" = false)
    (h : rd.float x.repr = some x) : ReadBack rd env x.repr where
  noDash := hdash
  notTrue := (rd.float_repr h).2.2.1
  notFalse := (rd.float_repr h).2.2.2
  same := by
    rw [coerce_repr h]
    rfl

theorem coerce_text {s : String} (htrue : lower s ≠ "true") (hfalse : lower s ≠ "false")
    (hint : rd.int s = none) (hfloat : rd.float s = none) : coerce rd s = .str s := by
  unfold coerce
  rw [if_neg htrue, if_neg hfalse, hint, hfloat]

/-- A text that begins with a brace is no boolean. -/
theorem lower_of_brace {s text : String} (h : startsWith s "\x7b" = true)
    (htext : text.toList.head? ≠ some (Char.ofNat 123)) : lower s ≠ text := by
  intro heq
  obtain ⟨cs, hcs⟩ := startsWith_iff.mp h
  have hlist : s.toList = Char.ofNat 123 :: cs := hcs.symm
  rw [← heq, lower, String.toList_map, hlist] at htext
  exact htext rfl

theorem startsWith_dumps_obj {ascii : Bool} {d : Dict Json} :
    startsWith (dumps ascii (.obj d)) "\x7b" = true := by
  rw [startsWith_iff, dumps, String.append_assoc, String.toList_append]
  exact List.prefix_append _ _

theorem readBack_obj (hbrace : rd.NoBrace) {d : Dict Json} :
    ReadBack rd env (dumps false (.obj d)) where
  noDash := by
    obtain ⟨cs, hcs⟩ := startsWith_iff.mp (@startsWith_dumps_obj false d)
    unfold startsWith
    rw [← hcs]
    rfl
  notTrue := lower_of_brace startsWith_dumps_obj (by decide)
  notFalse := lower_of_brace startsWith_dumps_obj (by decide)
  same := by
    obtain ⟨hint, hfloat⟩ := hbrace _ (@startsWith_dumps_obj false d)
    rw [coerce_text (lower_of_brace startsWith_dumps_obj (by decide))
      (lower_of_brace startsWith_dumps_obj (by decide)) hint hfloat]
    rfl

/-- The flag of a setting has the setting's name, and values that are read back. -/
theorem sglangFlagOf_eq_some (hbrace : rd.NoBrace) (h : SglangSettings rd env cfg tag)
    {p : String × Json} (hp : p ∈ cfg) {f : Flag} (hf : sglangFlagOf env p = some f) :
    f.name = flagName (sglangName p.1) ∧ p.1 ∉ sglangSkipCliKeys ∧ f.Kept rd env := by
  have hname := name_of_sglangFlagOf hf
  unfold sglangFlagOf at hf
  by_cases hskip : p.1 ∈ sglangSkipCliKeys
  · rw [if_pos hskip] at hf
    cases hf
  have hkept := h.kept p hp hskip
  rw [if_neg hskip] at hf
  refine ⟨hname, hskip, ?_⟩
  cases hv : p.2 with
  | null =>
    rw [hv] at hf
    cases hf
  | bool b =>
    cases b <;> simp only [hv, Bool.false_eq_true, if_true, if_false, Option.some.injEq,
      reduceCtorEq] at hf
    rw [← hf]
    exact Or.inl rfl
  | arr xs =>
    rw [hv] at hkept
    simp only [hv, Option.some.injEq] at hf
    rw [← hf]
    cases xs with
    | nil => exact Or.inl rfl
    | cons x xs =>
      have hlength : xs.length ≤ 0 := Nat.le_of_succ_le_succ hkept.1
      have hnil : xs = [] := List.length_eq_zero_iff.mp (Nat.le_zero.mp hlength)
      rw [hnil]
      exact Or.inr ⟨_, rfl, hkept.2 x List.mem_cons_self⟩
  | int n =>
    rw [hv] at hkept
    simp only [hv, Option.some.injEq] at hf
    rw [← hf]
    exact Or.inr ⟨_, rfl, readBack_int hkept⟩
  | float x =>
    rw [hv] at hkept
    simp only [hv, Option.some.injEq] at hf
    rw [← hf]
    exact Or.inr ⟨_, rfl, readBack_float hkept.1 hkept.2⟩
  | str s =>
    rw [hv] at hkept
    simp only [hv, Option.some.injEq] at hf
    rw [← hf]
    exact Or.inr ⟨_, rfl, hkept⟩
  | obj d =>
    simp only [hv, Option.some.injEq] at hf
    rw [← hf]
    exact Or.inr ⟨_, rfl, readBack_obj hbrace⟩

/-! ## The command line as pieces -/

namespace Flag

/-- A flag with one value at most, as the parser takes it. -/
def piece (f : Flag) : Piece :=
  match f.values with
  | [] => .bare (sliceFrom f.name 2)
  | text :: _ => .spaced (sliceFrom f.name 2) text

/-- The setting that the parser makes of it. -/
def setting (rd : Reader) (f : Flag) : String × Json :=
  (snake (sliceFrom f.name 2), f.piece.value rd)

end Flag

/-- The name of a flag of a setting, and what is known of it. -/
structure Flag.Named (f : Flag) (key : String) : Prop where
  name_eq : f.name = flagName key
  noEquals : '=' ∉ key.toList
  notOwn : flagName key ∉ sglangOwnFlags

theorem kebab_kebab (key : String) : kebab (kebab key) = kebab key := by
  unfold kebab
  rw [← String.toList_inj, String.toList_map, String.toList_map, List.map_map]
  refine List.map_congr_left fun c _ => ?_
  by_cases hc : c = '_'
  · simp [hc]
  · simp [hc]

theorem snake_kebab (key : String) : snake (kebab key) = snake key := by
  unfold kebab snake
  rw [← String.toList_inj, String.toList_map, String.toList_map, String.toList_map, List.map_map]
  refine List.map_congr_left fun c _ => ?_
  by_cases hc : c = '_'
  · simp [hc]
  · simp [hc]

theorem mem_ownFlags {key : String}
    (h : key ∈ sglangSkipCliKeys ++ sglangParamMap.keys ++ ["model", "model_path", "lora_paths"]) :
    flagName key ∈ sglangOwnFlags := List.mem_map_of_mem h

section Piece

variable {f : Flag} {key : String}

theorem Flag.Named.slice (h : f.Named key) : sliceFrom f.name 2 = kebab key := by
  rw [h.name_eq]
  exact sliceFrom_flag

/-- The flag is one piece. -/
theorem Flag.words_piece (h : f.Named key) (hkept : f.Kept rd env) : f.piece.words = f.words := by
  have hname : "--" ++ sliceFrom f.name 2 = f.name := by
    rw [h.slice, h.name_eq]
    rfl
  unfold piece words
  rcases hkept with hv | ⟨text, hv, -⟩ <;> rw [hv] <;> simp [Piece.words, hname]

theorem Flag.formed_piece (h : f.Named key) (hkept : f.Kept rd env) :
    f.piece.Formed sglangLoraFlag := by
  have hequals : '=' ∉ (kebab key).toList := by
    unfold kebab
    rw [String.toList_map]
    intro hmem
    obtain ⟨c, hc, heq⟩ := List.mem_map.mp hmem
    by_cases hline : c = '_'
    · simp [hline] at heq
    · rw [if_neg hline] at heq
      exact h.noEquals (heq ▸ hc)
  have hlora : kebab key ∉ sglangLoraFlag.names := by
    intro hmem
    have hown : kebab key = "lora-paths" := by
      rw [← kebab_kebab]
      simp only [sglangLoraFlag, List.mem_cons, List.not_mem_nil, or_false] at hmem
      rcases hmem with hmem | hmem <;> rw [hmem] <;> decide +kernel
    refine h.notOwn ?_
    have hflag : flagName key = flagName "lora_paths" := by
      unfold flagName
      rw [hown]
      decide +kernel
    rw [hflag]
    exact mem_ownFlags (by decide)
  unfold piece
  rcases hkept with hv | ⟨text, hv, hread⟩ <;> rw [hv] <;> simp only <;> rw [h.slice]
  · exact ⟨hequals, hlora⟩
  · exact ⟨hequals, hlora, hread.noDash⟩

/-- The neutral name of a setting that SGLang renames. -/
def neutral (key : String) : String := (sglangReverseMap.get key).getD key

/-- **A flag comes back**: the setting that the parser makes of it becomes the flag again. -/
theorem Flag.flagOf_setting (h : f.Named key) (hkept : f.Kept rd env) :
    sglangFlagOf env (neutral (f.setting rd).1, (f.setting rd).2) = some f := by
  have hkey : (f.setting rd).1 = snake key := by
    unfold setting
    rw [h.slice, snake_kebab]
  have hout : snake key ∉
      sglangSkipCliKeys ++ sglangParamMap.keys ++ ["model", "model_path", "lora_paths"] := by
    intro hmem
    refine h.notOwn ?_
    rw [← flagName_snake]
    exact mem_ownFlags hmem
  rw [List.mem_append, List.mem_append, not_or, not_or] at hout
  obtain ⟨⟨hskip, hparam⟩, -⟩ := hout
  -- the name is the same, renamed or not
  have hname : neutral (snake key) ∉ sglangSkipCliKeys ∧
      flagName (sglangName (neutral (snake key))) = f.name := by
    rw [h.name_eq, ← flagName_snake key]
    by_cases hmap : snake key ∈ sglangReverseMap.keys
    · simp only [sglangReverseMap, Dict.keys, List.map_cons, List.map_nil, List.mem_cons,
        List.not_mem_nil, or_false] at hmap
      have hback {key name : String} (hskip : neutral key ∉ sglangSkipCliKeys)
          (hname : flagName (sglangName (neutral key)) = name) (hflag : flagName key = name) :
          neutral key ∉ sglangSkipCliKeys ∧
            flagName (sglangName (neutral key)) = flagName key := ⟨hskip, hname.trans hflag.symm⟩
      rcases hmap with hmap | hmap | hmap <;> rw [hmap]
      · exact @hback _ "--context-length" (by decide +kernel) (by decide +kernel) (by decide +kernel)
      · exact @hback _ "--mem-fraction-static" (by decide +kernel) (by decide +kernel)
          (by decide +kernel)
      · exact @hback _ "--tp-size" (by decide +kernel) (by decide +kernel) (by decide +kernel)
    · have hsame : neutral (snake key) = snake key := by
        unfold neutral
        rw [Dict.get_eq_none_iff.mpr hmap]
        rfl
      have hdirect : sglangName (snake key) = snake key := by
        unfold sglangName
        rw [Dict.get_eq_none_iff.mpr hparam]
        rfl
      rw [hsame, hdirect]
      exact ⟨hskip, rfl⟩
  unfold sglangFlagOf
  rw [hkey, if_neg hname.1, hname.2]
  have hflag : f = ⟨f.name, f.values⟩ := rfl
  unfold setting piece
  rcases hkept with hv | ⟨text, hv, hread⟩
  · rw [hflag, hv]
    rfl
  · rw [hflag, hv]
    simp only [Piece.value]
    have hsame := hread.same
    obtain ⟨hlow, -⟩ | ⟨hlow, -⟩ | ⟨n, -, hc⟩ | ⟨x, -, hc⟩ | ⟨-, -, hc⟩ := coerce_cases rd text
    · exact absurd hlow hread.notTrue
    · exact absurd hlow hread.notFalse
    · rw [hc] at hsame ⊢
      simp only [hsame]
    · rw [hc] at hsame ⊢
      simp only [hsame]
    · rw [hc] at hsame ⊢
      simp only [hsame]

/-- The name of a flag from the key of its setting. -/
theorem Flag.Named.name_setting (h : f.Named key) : f.name = flagName (f.setting rd).1 := by
  unfold setting
  rw [h.slice, snake_kebab, flagName_snake]
  exact h.name_eq

end Piece

/-! ## The parser -/

/-- The pieces of the command line before those of the settings. -/
def headPieces (cfg : Dict Json) (tag : String) (paths : List String) : List Piece :=
  [.spaced "model-path" tag, .spaced "served-model-name" tag, .bare "enable-metrics"] ++
    if usesLora cfg then
      .bare "enable-lora" :: if paths.isEmpty then [] else [.listed "lora-paths" paths]
    else []

/-- The settings that the parser makes of the LoRA flags. -/
def loraSettings (rd : Reader) (cfg : Dict Json) (paths : List String) : Dict Json :=
  if usesLora cfg then
    ("enable_lora", .bool true) ::
      if paths.isEmpty then []
      else [("lora_modules", .arr (paths.map fun word => .obj (parseLoraModule rd word)))]
  else []

/-- The settings that the parser makes of the flags before those of the settings. -/
def headSettings (rd : Reader) (cfg : Dict Json) (tag : String) (paths : List String) : Dict Json :=
  [("model_path", .str tag), ("served_model_name", .str tag), ("enable_metrics", .bool true)] ++
    loraSettings rd cfg paths

/-- The keys get their underscores one after the other. -/
theorem snakeKeys_update {d e : Dict Json} (he : (e.keys.map snake).Nodup)
    (hd : ∀ k ∈ e.keys, snake k ∉ d.keys.map snake) :
    snakeKeys (d.update e) = snakeKeys d ++ e.map fun p => (snake p.1, p.2) := by
  have hkeys (d : Dict Json) : Dict.keys (d.map fun p => (snake p.1, p.2)) = d.keys.map snake := by
    unfold Dict.keys
    rw [List.map_map, List.map_map]
    rfl
  rw [Dict.update_eq_append (List.Nodup.of_map snake he)
    fun k hk hmem => hd k hk (List.mem_map_of_mem hmem)]
  unfold snakeKeys
  rw [List.map_append]
  show List.foldl _ [] (_ ++ _) = _
  rw [List.foldl_append]
  refine Dict.update_eq_append ?_ ?_
  · unfold Dict.Unique
    rw [hkeys]
    exact he
  · intro k hk hmem
    rw [hkeys] at hk
    obtain ⟨k', hk', rfl⟩ := List.mem_map.mp hk
    rcases Dict.mem_keys_update.mp hmem with hnil | hmem
    · cases hnil
    · rw [hkeys] at hmem
      exact hd k' hk' hmem

/-- The settings of the first flags, under the names that they have on the command line. -/
theorem foldl_headPieces (htag : coerce rd tag = .str tag) :
    (headPieces cfg tag paths).foldl (Piece.apply rd sglangLoraFlag) [] =
      [("model-path", .str tag), ("served-model-name", .str tag), ("enable-metrics", .bool true)] ++
        if usesLora cfg then
          ("enable-lora", .bool true) ::
            if paths.isEmpty then []
            else [("lora_modules", .arr (paths.map fun word => .obj (parseLoraModule rd word))),
              ("enable_lora", .bool true)]
        else [] := by
  unfold headPieces
  split_ifs <;> simp [Piece.apply, LoraFlag.set, sglangLoraFlag, Dict.set, htag]

theorem snakeKeys_headPieces (htag : coerce rd tag = .str tag) :
    snakeKeys ((headPieces cfg tag paths).foldl (Piece.apply rd sglangLoraFlag) []) =
      headSettings rd cfg tag paths := by
  have hpath : snake "model-path" = "model_path" := by decide +kernel
  have hserved : snake "served-model-name" = "served_model_name" := by decide +kernel
  have hmetrics : snake "enable-metrics" = "enable_metrics" := by decide +kernel
  have hlora : snake "enable-lora" = "enable_lora" := by decide +kernel
  have hlora' : snake "enable_lora" = "enable_lora" := by decide +kernel
  rw [foldl_headPieces htag]
  unfold headSettings loraSettings snakeKeys
  split_ifs <;>
    simp [Dict.update, Dict.set, hpath, hserved, hmetrics, hlora, hlora', snake_lora]

theorem formed_headPieces (hdash : startsWith tag "-" = false)
    (hpaths : ∀ word ∈ paths, loraValue word = true) :
    ∀ p ∈ headPieces cfg tag paths, p.Formed sglangLoraFlag := by
  have hpath : (Piece.spaced "model-path" tag).Formed sglangLoraFlag :=
    ⟨by decide, by decide, hdash⟩
  have hserved : (Piece.spaced "served-model-name" tag).Formed sglangLoraFlag :=
    ⟨by decide, by decide, hdash⟩
  have hmetrics : (Piece.bare "enable-metrics").Formed sglangLoraFlag := by decide
  have hlora : (Piece.bare "enable-lora").Formed sglangLoraFlag := by decide
  have hlisted : (Piece.listed "lora-paths" paths).Formed sglangLoraFlag := ⟨by decide, hpaths⟩
  unfold headPieces
  rw [List.forall_mem_append]
  constructor
  · simp only [List.forall_mem_cons, List.not_mem_nil, false_implies, implies_true, and_true]
    exact ⟨hpath, hserved, hmetrics⟩
  · split_ifs
    · simpa using hlora
    · simp only [List.forall_mem_cons, List.not_mem_nil, false_implies, implies_true, and_true]
      exact ⟨hlora, hlisted⟩
    · exact List.forall_mem_nil _

/-- They are the builder's own. -/
theorem own_of_headPieces (htag : coerce rd tag = .str tag) {key : String}
    (h : key ∈ (Dict.keys ((headPieces cfg tag paths).foldl (Piece.apply rd sglangLoraFlag) [])).map
      snake) :
    key ∈ sglangSkipCliKeys ++ sglangParamMap.keys ++ ["model", "model_path", "lora_paths"] := by
  have hall : ∀ key ∈ ["model-path", "served-model-name", "enable-metrics", "enable-lora",
      "lora_modules", "enable_lora"],
      snake key ∈ sglangSkipCliKeys ++ sglangParamMap.keys ++
        ["model", "model_path", "lora_paths"] := by
    decide +kernel
  obtain ⟨k, hk, rfl⟩ := List.mem_map.mp h
  refine hall k ?_
  rw [foldl_headPieces htag] at hk
  split_ifs at hk <;> simp [Dict.keys] at hk ⊢ <;> tauto

/-- The flags of the settings. -/
theorem named_settingFlags (hbrace : rd.NoBrace) (h : SglangSettings rd env cfg tag) {f : Flag}
    (hf : f ∈ settingFlags env cfg) :
    f.Kept rd env ∧ ∃ key, f.Named key := by
  obtain ⟨p, hp, hflag⟩ := List.mem_filterMap.mp hf
  obtain ⟨hname, hskip, hkept⟩ := sglangFlagOf_eq_some hbrace h hp hflag
  obtain ⟨hequals, hown⟩ := h.keys p hp hskip
  refine ⟨hkept, sglangName p.1, hname, ?_, hown⟩
  unfold sglangName
  cases hget : sglangParamMap.get p.1 with
  | none => exact hequals
  | some name =>
    have hnames : ∀ q ∈ sglangParamMap, '=' ∉ q.2.toList := by decide +kernel
    exact hnames _ (Dict.mem_of_get hget)

/-- Every setting of a flag has its own name, and none is the builder's. -/
theorem setting_keys (hbrace : rd.NoBrace) (h : SglangSettings rd env cfg tag) :
    (((settingFlags env cfg).map (Flag.setting rd)).map Prod.fst).Nodup ∧
    ∀ key ∈ ((settingFlags env cfg).map (Flag.setting rd)).map Prod.fst,
      key ∉ sglangSkipCliKeys ++ sglangParamMap.keys ++ ["model", "model_path", "lora_paths"] := by
  constructor
  · refine List.Nodup.of_map flagName ?_
    rw [List.map_map, List.map_map]
    have hnames : (settingFlags env cfg).map (flagName ∘ Prod.fst ∘ Flag.setting rd) =
        (settingFlags env cfg).map Flag.name := by
      refine List.map_congr_left fun f hf => ?_
      obtain ⟨-, key, hnamed⟩ := named_settingFlags hbrace h hf
      exact hnamed.name_setting.symm
    exact hnames ▸ h.distinct
  · intro key hkey hown
    rw [List.map_map] at hkey
    obtain ⟨f, hf, rfl⟩ := List.mem_map.mp hkey
    obtain ⟨-, key, hnamed⟩ := named_settingFlags hbrace h hf
    refine hnamed.notOwn ?_
    rw [← hnamed.name_eq, hnamed.name_setting]
    exact mem_ownFlags hown

/-- The model is served under its own name. -/
theorem served_eq (h : SglangSettings rd env cfg tag) :
    env.str (((cfg.get "served_model_name").filter Json.truthy).getD (.str tag)) = tag := by
  cases hv : (cfg.get "served_model_name").filter Json.truthy with
  | none => rfl
  | some v =>
    obtain ⟨hget, htruthy⟩ := Option.filter_eq_some_iff.mp hv
    exact h.served v hget htruthy

/-- The pieces of the command line are its flags. -/
theorem words_built (hbrace : rd.NoBrace) (h : SglangSettings rd env cfg tag) :
    (headPieces cfg tag paths ++ (settingFlags env cfg).map Flag.piece).flatMap Piece.words =
      (sglangFlags env cfg (.str tag) paths).flatMap Flag.words := by
  have hsettings : ((settingFlags env cfg).map Flag.piece).flatMap Piece.words =
      (settingFlags env cfg).flatMap Flag.words := by
    rw [List.flatMap_map]
    refine List.flatMap_congr fun f hf => ?_
    obtain ⟨hkept, key, hnamed⟩ := named_settingFlags hbrace h hf
    exact Flag.words_piece hnamed hkept
  unfold sglangFlags headPieces
  rw [List.flatMap_append, hsettings, served_eq h, ← settingFlags]
  unfold sglangLoraFlags
  split_ifs <;> simp [Piece.words, Flag.words] <;> rfl

/-- **What the parser makes of the flags.** -/
theorem snakeKeys_built (hbrace : rd.NoBrace) (h : SglangSettings rd env cfg tag)
    (hpaths : ∀ word ∈ paths, loraValue word = true) :
    snakeKeys (flagsLoop rd sglangLoraFlag 0
        ((sglangFlags env cfg (.str tag) paths).flatMap Flag.words) []) =
      headSettings rd cfg tag paths ++ (settingFlags env cfg).map (Flag.setting rd) := by
  have hformed : ∀ p ∈ headPieces cfg tag paths ++ (settingFlags env cfg).map Flag.piece,
      p.Formed sglangLoraFlag := by
    intro p hp
    rcases List.mem_append.mp hp with hp | hp
    · exact formed_headPieces h.tagDash hpaths p hp
    · obtain ⟨f, hf, rfl⟩ := List.mem_map.mp hp
      obtain ⟨hkept, key, hnamed⟩ := named_settingFlags hbrace h hf
      exact Flag.formed_piece hnamed hkept
  obtain ⟨hnodup, hown⟩ := setting_keys hbrace h
  have hloop (flags : Dict Json) :
      ((settingFlags env cfg).map Flag.piece).foldl (Piece.apply rd sglangLoraFlag) flags =
        flags.update ((settingFlags env cfg).map fun f => (sliceFrom f.name 2, f.piece.value rd)) := by
    unfold Dict.update
    rw [List.foldl_map, List.foldl_map]
    congr 1
    funext flags f
    unfold Flag.piece
    cases f.values <;> rfl
  rw [← words_built hbrace h, flagsLoop_pieces hformed (by decide), List.foldl_append, hloop,
    snakeKeys_update, snakeKeys_headPieces h.tagText, List.map_map]
  · rfl
  · unfold Dict.keys
    rw [List.map_map, List.map_map]
    rw [List.map_map] at hnodup
    exact hnodup
  · intro k hk hmem
    have hkey := own_of_headPieces h.tagText hmem
    obtain ⟨q, hq, rfl⟩ := List.mem_map.mp hk
    obtain ⟨f, hf, rfl⟩ := List.mem_map.mp hq
    refine hown _ ?_ hkey
    rw [List.map_map]
    exact List.mem_map.mpr ⟨f, hf, rfl⟩

/-- The settings of the flags of settings. -/
def readSettings (rd : Reader) (env : LaunchEnv) (cfg : Dict Json) : Dict Json :=
  (settingFlags env cfg).map (Flag.setting rd)

/-- What is left of the settings when the model, its name, the host and the port are taken out. -/
def restSettings (rd : Reader) (env : LaunchEnv) (cfg : Dict Json) (paths : List String) :
    Dict Json :=
  ("enable_metrics", .bool true) :: (loraSettings rd cfg paths ++
    ((readSettings rd env cfg).pop "port").pop "host")

theorem keys_loraSettings {key : String} (h : key ∈ (loraSettings rd cfg paths).keys) :
    key = "enable_lora" ∨ key = "lora_modules" := by
  unfold loraSettings at h
  split_ifs at h
  · exact Or.inl (by simpa [Dict.keys] using h)
  · simpa [Dict.keys] using h
  · cases h

/-- A key of the builder's own is no setting of a flag. -/
theorem notMem_readSettings (hbrace : rd.NoBrace) (h : SglangSettings rd env cfg tag) {key : String}
    (hkey : key ∈ sglangSkipCliKeys ++ sglangParamMap.keys ++
      ["model", "model_path", "lora_paths"]) : key ∉ (readSettings rd env cfg).keys :=
  fun hmem => (setting_keys hbrace h).2 key hmem hkey

/-- The settings of the flags that follow the model and its name. -/
def switchSettings (rd : Reader) (cfg : Dict Json) (paths : List String) : Dict Json :=
  ("enable_metrics", .bool true) :: loraSettings rd cfg paths

theorem notMem_switchSettings {key : String}
    (h : key ∉ ["enable_metrics", "enable_lora", "lora_modules"]) :
    key ∉ (switchSettings rd cfg paths).keys := by
  simp only [List.mem_cons, List.not_mem_nil, or_false, not_or] at h
  intro hmem
  rcases List.mem_cons.mp hmem with hmem | hmem
  · exact h.1 hmem
  · exact (keys_loraSettings hmem).elim h.2.1 h.2.2

/-- The command line is read back to its words. -/
theorem commandWords_launch (words : List String) :
    commandWords (Shlex.join (["python", "-m", "sglang.launch_server"] ++ words)) =
      .ok ([], ["python", "-m", "sglang.launch_server"] ++ words) := by
  have hsplit := Shlex.split_join (["python", "-m", "sglang.launch_server"] ++ words)
  have hnonempty :
      strip (Shlex.join (["python", "-m", "sglang.launch_server"] ++ words)) ≠ "" := by
    intro hstrip
    have hp : 'p' ∈ (Shlex.join (["python", "-m", "sglang.launch_server"] ++ words)).toList :=
      Shlex.mem_of_split hsplit (w := "python") (by simp) (by decide) (by decide)
    exact absurd (isSpace_of_strip hstrip hp) (by decide)
  unfold commandWords
  rw [if_neg hnonempty, hsplit]
  rfl

/-- The model's path is taken out of the settings. -/
theorem pop_model_path (hbrace : rd.NoBrace) (h : SglangSettings rd env cfg tag) :
    Dict.pop (headSettings rd cfg tag paths ++ readSettings rd env cfg) "model_path" =
      ("served_model_name", .str tag) ::
        (switchSettings rd cfg paths ++ readSettings rd env cfg) := by
  have hswitch : (switchSettings rd cfg paths).pop "model_path" = switchSettings rd cfg paths :=
    Dict.pop_eq_self (notMem_switchSettings (by decide))
  rw [Dict.pop_append, Dict.pop_eq_self (notMem_readSettings hbrace h (by decide))]
  exact congrArg (fun d => ("served_model_name", Json.str tag) :: (d ++ _)) hswitch

/-- A key that is no switch is a flag's setting. -/
theorem get_settings (key : String)
    (h : key ∉ ["served_model_name", "enable_metrics", "enable_lora", "lora_modules"]) :
    Dict.get (("served_model_name", .str tag) ::
        (switchSettings rd cfg paths ++ readSettings rd env cfg)) key =
      (readSettings rd env cfg).get key := by
  obtain ⟨hserved, h⟩ := not_or.mp (mt List.mem_cons.mpr h)
  rw [Dict.get_cons_ne hserved, Dict.get_append,
    Dict.get_eq_none_iff.mpr (notMem_switchSettings h), Option.none_or]

/-- The port, the host and the name are taken out of them. -/
theorem pop_settings (hbrace : rd.NoBrace) (h : SglangSettings rd env cfg tag) :
    ((Dict.pop (("served_model_name", .str tag) ::
        (switchSettings rd cfg paths ++ readSettings rd env cfg)) "port").pop "host").pop
          "served_model_name" = restSettings rd env cfg paths := by
  have hlast : "served_model_name" ∉
      Dict.keys (((readSettings rd env cfg).pop "port").pop "host") := fun hmem =>
    notMem_readSettings hbrace h (by decide)
      (Dict.mem_keys_pop.mp (Dict.mem_keys_pop.mp hmem).1).1
  have hserved (d : Dict Json) :
      ((Dict.pop (("served_model_name", Json.str tag) :: d) "port").pop "host").pop
        "served_model_name" = ((d.pop "port").pop "host").pop "served_model_name" := rfl
  rw [hserved, Dict.pop_append, Dict.pop_append, Dict.pop_append,
    Dict.pop_eq_self (notMem_switchSettings (by decide)),
    Dict.pop_eq_self (notMem_switchSettings (by decide)),
    Dict.pop_eq_self (notMem_switchSettings (by decide)), Dict.pop_eq_self hlast]
  rfl

/-- **What the command line is parsed to.** -/
theorem parse_built (hbrace : rd.NoBrace) (h : SglangSettings rd env cfg tag)
    (hpaths : ∀ word ∈ paths, loraValue word = true) :
    ∃ parsed, parseSglangCommand rd (Shlex.join (["python", "-m", "sglang.launch_server"] ++
        (sglangFlags env cfg (.str tag) paths).flatMap Flag.words)) = .ok parsed ∧
      parsed.modelConfig = Dict.update [("model_tag", .str tag), ("engine", .str "sglang")]
        (sglangRename (restSettings rd env cfg paths)) ∧
      parsed.host = ((readSettings rd env cfg).get "host").getD (.str "localhost") ∧
      parsed.port = ((readSettings rd env cfg).get "port").getD (.int 30000) := by
  have hloop : snakeKeys (flagsLoop rd sglangLoraFlag 0
      ((["python", "-m", "sglang.launch_server"] ++
        (sglangFlags env cfg (.str tag) paths).flatMap Flag.words).dropWhile
          fun word => !startsWith word "-") []) =
      headSettings rd cfg tag paths ++ readSettings rd env cfg :=
    snakeKeys_built hbrace h hpaths
  have hpath : Dict.get (headSettings rd cfg tag paths ++ readSettings rd env cfg) "model_path" =
      some (.str tag) := rfl
  have htruthy : Json.truthy (.str tag) = true := decide_eq_true h.nonempty
  unfold parseSglangCommand
  rw [commandWords_launch]
  simp only [bind, Except.bind, hloop, hpath, Option.filter_some_pos htruthy,
    pop_model_path hbrace h]
  unfold assemble
  simp only [bind, Except.bind, get_settings "port" (by decide),
    get_settings "host" (by decide), Dict.get_cons_self, Option.filter_some_pos htruthy,
    pop_settings hbrace h]
  exact ⟨_, rfl, rfl, rfl, rfl⟩

/-! ## The settings of the second command line -/

theorem neutral_cases (key : String) : neutral key = key ∨
    neutral key ∈ ["max_model_len", "gpu_memory_utilization", "tensor_parallel_size"] := by
  unfold neutral
  cases hget : sglangReverseMap.get key with
  | none => exact Or.inl rfl
  | some name =>
    have hnames : ∀ q ∈ sglangReverseMap,
        q.2 ∈ ["max_model_len", "gpu_memory_utilization", "tensor_parallel_size"] := by decide
    exact Or.inr (hnames _ (Dict.mem_of_get hget))

theorem keys_restSettings {key : String} (h : key ∈ (restSettings rd env cfg paths).keys) :
    key ∈ ["enable_metrics", "enable_lora", "lora_modules"] ∨
      key ∈ (readSettings rd env cfg).keys ∧ key ≠ "port" ∧ key ≠ "host" := by
  unfold restSettings Dict.keys at h
  rw [List.map_cons, List.map_append] at h
  rcases List.mem_cons.mp h with rfl | h
  · exact Or.inl (by decide)
  rcases List.mem_append.mp h with h | h
  · refine Or.inl ?_
    rcases keys_loraSettings h with rfl | rfl <;> decide
  · obtain ⟨h, hhost⟩ := Dict.mem_keys_pop.mp h
    obtain ⟨h, hport⟩ := Dict.mem_keys_pop.mp h
    exact Or.inr ⟨h, hport, hhost⟩

theorem unique_restSettings (hbrace : rd.NoBrace) (h : SglangSettings rd env cfg tag) :
    (restSettings rd env cfg paths).Unique := by
  have hread : (readSettings rd env cfg).Unique := (setting_keys hbrace h).1
  have hlora : (loraSettings rd cfg paths).Unique := by
    unfold loraSettings
    split_ifs <;> simp [Dict.Unique, Dict.keys]
  have hnot {key : String} (hkey : key ∈ ["enable_metrics", "enable_lora", "lora_modules"]) :
      key ∉ Dict.keys (((readSettings rd env cfg).pop "port").pop "host") := by
    intro hmem
    refine notMem_readSettings hbrace h ?_
      (Dict.mem_keys_pop.mp (Dict.mem_keys_pop.mp hmem).1).1
    simp only [List.mem_cons, List.not_mem_nil, or_false] at hkey
    rcases hkey with rfl | rfl | rfl <;> decide
  unfold restSettings Dict.Unique Dict.keys
  rw [List.map_cons, List.map_append, List.nodup_cons, List.mem_append, not_or]
  refine ⟨⟨fun hmem => ?_, hnot (by decide)⟩, List.Nodup.append hlora hread.pop.pop ?_⟩
  · rcases keys_loraSettings hmem with heq | heq <;> exact absurd heq (by decide)
  · intro key hmem
    refine hnot ?_
    rcases keys_loraSettings hmem with rfl | rfl <;> decide

theorem sglangRename_eq (d : Dict Json) :
    sglangRename d = sglangReverseMap.foldl (fun d p => d.rename p.1 p.2) d := by
  unfold sglangRename
  congr 1
  funext d p
  unfold Dict.rename
  cases d.get p.1 <;> rfl

/-- **The settings get their neutral names.** -/
theorem sglangRename_perm (hbrace : rd.NoBrace) (h : SglangSettings rd env cfg tag) :
    (sglangRename (restSettings rd env cfg paths)).Perm
      ((restSettings rd env cfg paths).map fun p => (neutral p.1, p.2)) := by
  rw [sglangRename_eq]
  refine @Dict.renameAll_perm _ _ sglangReverseMap (unique_restSettings hbrace h) (by decide)
    (by decide) fun key hkey hmem => ?_
  have hparam : key ∈ sglangParamMap.keys := by
    have hall : ∀ key ∈ sglangReverseMap.map Prod.snd, key ∈ sglangParamMap.keys := by decide
    exact hall key hkey
  rcases keys_restSettings hmem with hmem | ⟨hmem, -⟩
  · have hall : ∀ key ∈ ["enable_metrics", "enable_lora", "lora_modules"],
        key ∉ sglangParamMap.keys := by decide
    exact hall key hmem hparam
  · exact notMem_readSettings hbrace h
      (List.mem_append_left _ (List.mem_append_right _ hparam)) hmem

/-- The settings of the second command line. -/
def rebuiltConfig (rd : Reader) (env : LaunchEnv) (cfg : Dict Json) (tag : String)
    (paths : List String) : Dict Json :=
  [("model_tag", .str tag), ("engine", .str "sglang")] ++
    sglangRename (restSettings rd env cfg paths) ++
    [("host", ((readSettings rd env cfg).get "host").getD (.str "localhost")),
      ("port", ((readSettings rd env cfg).get "port").getD (.int 30000))]

theorem notMem_sglangRename (hbrace : rd.NoBrace) (h : SglangSettings rd env cfg tag) {key : String}
    (hkey : key ∈ ["model_tag", "engine", "host", "port"]) :
    key ∉ Dict.keys (sglangRename (restSettings rd env cfg paths)) := by
  intro hmem
  have hmem := ((sglangRename_perm hbrace h).map Prod.fst).mem_iff.mp hmem
  rw [List.map_map] at hmem
  obtain ⟨p, hp, rfl⟩ := List.mem_map.mp hmem
  have hne : neutral p.1 ∉ ["max_model_len", "gpu_memory_utilization", "tensor_parallel_size"] := by
    have hall : ∀ key ∈ ["model_tag", "engine", "host", "port"],
        key ∉ ["max_model_len", "gpu_memory_utilization", "tensor_parallel_size"] := by decide
    exact hall _ hkey
  have hsame := (neutral_cases p.1).resolve_right hne
  simp only [Function.comp_apply, hsame] at hkey
  rcases keys_restSettings (List.mem_map_of_mem hp) with hmem | ⟨hmem, hport, hhost⟩
  · have hall : ∀ key ∈ ["enable_metrics", "enable_lora", "lora_modules"],
        key ∉ ["model_tag", "engine", "host", "port"] := by decide
    exact hall _ hmem hkey
  · simp only [List.mem_cons, List.not_mem_nil, or_false] at hkey
    rcases hkey with hkey | hkey | hkey | hkey
    · exact notMem_readSettings hbrace h (hkey ▸ by decide) hmem
    · exact notMem_readSettings hbrace h (hkey ▸ by decide) hmem
    · exact hhost hkey
    · exact hport hkey

theorem rebuiltConfig_eq (hbrace : rd.NoBrace) (h : SglangSettings rd env cfg tag) :
    Dict.update (Dict.update [("model_tag", .str tag), ("engine", .str "sglang")]
        (sglangRename (restSettings rd env cfg paths)))
      [("host", ((readSettings rd env cfg).get "host").getD (.str "localhost")),
        ("port", ((readSettings rd env cfg).get "port").getD (.int 30000))] =
      rebuiltConfig rd env cfg tag paths := by
  have hunique : Dict.Unique (sglangRename (restSettings rd env cfg paths)) := by
    rw [sglangRename_eq]
    exact Dict.Unique.renameAll _ (unique_restSettings hbrace h)
  have hbase : Dict.update [("model_tag", Json.str tag), ("engine", .str "sglang")]
      (sglangRename (restSettings rd env cfg paths)) =
      [("model_tag", .str tag), ("engine", .str "sglang")] ++
        sglangRename (restSettings rd env cfg paths) := by
    refine Dict.update_eq_append hunique fun key hmem hkey => ?_
    refine notMem_sglangRename hbrace h ?_ hmem
    simp only [Dict.keys, List.map_cons, List.map_nil, List.mem_cons, List.not_mem_nil, or_false]
      at hkey
    rcases hkey with rfl | rfl <;> decide
  rw [hbase, Dict.update_eq_append]
  · rfl
  · simp [Dict.Unique, Dict.keys]
  · intro key hkey hmem
    simp only [Dict.keys, List.map_cons, List.map_nil, List.mem_cons, List.not_mem_nil, or_false]
      at hkey
    unfold Dict.keys at hmem
    rw [List.map_append] at hmem
    rcases List.mem_append.mp hmem with hmem | hmem
    · simp only [List.map_cons, List.map_nil, List.mem_cons, List.not_mem_nil, or_false] at hmem
      rcases hkey with rfl | rfl <;> exact absurd hmem (by decide)
    · refine notMem_sglangRename hbrace h ?_ hmem
      rcases hkey with rfl | rfl <;> decide

/-- What the second command line finds of its own keys. -/
theorem get_rebuiltConfig (hbrace : rd.NoBrace) (h : SglangSettings rd env cfg tag) {key : String}
    (hkey : key ∈ ["enable_lora", "lora_modules", "allow_runtime_lora", "served_model_name"]) :
    (rebuiltConfig rd env cfg tag paths).get key = (loraSettings rd cfg paths).get key := by
  have hown : ∀ key ∈ ["enable_lora", "lora_modules", "allow_runtime_lora", "served_model_name"],
      key ∈ sglangSkipCliKeys ∧ neutral key = key ∧
        key ∉ ["model_tag", "engine", "host", "port", "enable_metrics"] ∧
        key ∉ ["max_model_len", "gpu_memory_utilization", "tensor_parallel_size"] := by decide
  obtain ⟨hskip, hsame, hnew, hneutral⟩ := hown key hkey
  simp only [List.mem_cons, List.not_mem_nil, or_false, not_or] at hnew
  have hrename : Dict.get (sglangRename (restSettings rd env cfg paths)) key =
      Dict.get ((restSettings rd env cfg paths).map fun p => (neutral p.1, p.2)) key := by
    refine Dict.get_of_perm ?_ (sglangRename_perm hbrace h)
    rw [sglangRename_eq]
    exact Dict.Unique.renameAll _ (unique_restSettings hbrace h)
  -- renaming neither makes nor takes the key
  have hmap (d : Dict Json) :
      Dict.get (d.map fun p => (neutral p.1, p.2)) key = d.get key := by
    induction d with
    | nil => rfl
    | cons p d ih =>
      rw [List.map_cons, Dict.get_cons, Dict.get_cons, ih]
      refine if_congr ⟨fun heq => ?_, fun heq => ?_⟩ rfl rfl
      · rcases neutral_cases p.1 with hp | hp
        · rw [heq, hp]
        · exact absurd (heq ▸ hp) hneutral
      · rw [← heq, hsame]
  have hrest : (restSettings rd env cfg paths).get key = (loraSettings rd cfg paths).get key := by
    have hnone : key ∉ Dict.keys (((readSettings rd env cfg).pop "port").pop "host") := fun hmem =>
      notMem_readSettings hbrace h
        (List.mem_append_left _ (List.mem_append_left _ hskip))
        (Dict.mem_keys_pop.mp (Dict.mem_keys_pop.mp hmem).1).1
    unfold restSettings
    rw [Dict.get_cons_ne hnew.2.2.2.2, Dict.get_append, Dict.get_eq_none_iff.mpr hnone,
      Option.or_none]
  unfold rebuiltConfig
  rw [Dict.get_append, Dict.get_append, hrename, hmap, hrest, Dict.get_cons_ne hnew.1,
    Dict.get_cons_ne hnew.2.1, Dict.get_cons_ne hnew.2.2.1, Dict.get_cons_ne hnew.2.2.2.1]
  simp

/-- The second command line uses LoRA if the first did. -/
theorem usesLora_rebuiltConfig (hbrace : rd.NoBrace) (h : SglangSettings rd env cfg tag) :
    usesLora (rebuiltConfig rd env cfg tag paths) = usesLora cfg := by
  have hset {key : String}
      (hkey : key ∈ ["enable_lora", "lora_modules", "allow_runtime_lora", "served_model_name"]) :
      isSet (rebuiltConfig rd env cfg tag paths) key = isSet (loraSettings rd cfg paths) key := by
    unfold isSet
    rw [get_rebuiltConfig hbrace h hkey]
  have hlora : usesLora (rebuiltConfig rd env cfg tag paths) =
      usesLora (loraSettings rd cfg paths) := by
    unfold usesLora
    rw [hset (by decide), hset (by decide), hset (by decide)]
  rw [hlora]
  unfold loraSettings
  by_cases huse : usesLora cfg = true
  · rw [if_pos huse, huse]
    rfl
  · rw [if_neg huse]
    rw [Bool.not_eq_true] at huse
    rw [huse]
    rfl

/-- Adapters in the short form are written as they were read. -/
theorem sglangLoraPaths_words (hwords : ∀ word ∈ paths, ∃ name path, word = name ++ "=" ++ path ∧
    path ≠ "" ∧ (Adapter.short name path).Formed rd) :
    sglangLoraPaths env (.arr (paths.map fun word => .obj (parseLoraModule rd word))) =
      some paths := by
  have hobjs : (paths.map fun word => Json.obj (parseLoraModule rd word)).mapM Json.asObj =
      some (paths.map (parseLoraModule rd)) := by
    rw [mapM_eq_some_iff, List.forall₂_map_left_iff, List.forall₂_map_right_iff]
    exact List.forall₂_same.mpr fun _ _ => rfl
  have hword {word : String} (hmem : word ∈ paths) :
      (isSet (parseLoraModule rd word) "name" && isSet (parseLoraModule rd word) "path") = true ∧
        env.str (((parseLoraModule rd word).get "name").getD .null) ++ "=" ++
          env.str (((parseLoraModule rd word).get "path").getD .null) = word := by
    obtain ⟨name, path, rfl, hpath, hformed⟩ := hwords word hmem
    have hparse := parseLoraModule_word hformed
    simp only [Adapter.word, Adapter.fields] at hparse
    have hname : Dict.get (parseLoraModule rd (name ++ "=" ++ path)) "name" = some (.str name) := by
      rw [hparse, Dict.get_cons_self]
    have hpath' : Dict.get (parseLoraModule rd (name ++ "=" ++ path)) "path" = some (.str path) := by
      rw [hparse, Dict.get_cons_ne (by decide), Dict.get_cons_self]
    unfold isSet
    rw [hname, hpath', Option.any_some, Option.any_some, Bool.and_eq_true]
    exact ⟨⟨decide_eq_true hformed.1, decide_eq_true hpath⟩, rfl⟩
  have hfilter : (paths.map (parseLoraModule rd)).filter (fun m => isSet m "name" && isSet m "path") =
      paths.map (parseLoraModule rd) := by
    refine List.filter_eq_self.mpr fun m hm => ?_
    obtain ⟨word, hmem, rfl⟩ := List.mem_map.mp hm
    exact (hword hmem).1
  unfold sglangLoraPaths
  simp only [Json.iter, Option.bind_eq_bind, Option.bind_some, hobjs, hfilter, Option.pure_def,
    List.map_map]
  refine congrArg some ((List.map_congr_left fun word hmem => ?_).trans (List.map_id paths))
  exact (hword hmem).2

/-- The adapters are listed as they were. -/
theorem loraPaths_rebuiltConfig (hbrace : rd.NoBrace) (h : SglangSettings rd env cfg tag)
    (hpaths : sglangLoraPaths env (loraModules cfg) = some paths) :
    ∃ paths', sglangLoraPaths env (loraModules (rebuiltConfig rd env cfg tag paths)) = some paths' ∧
      (usesLora cfg = true → paths' = paths) := by
  have hget := @get_rebuiltConfig rd env cfg tag paths hbrace h "lora_modules" (by decide)
  unfold loraModules
  rw [hget]
  unfold loraSettings
  by_cases huse : usesLora cfg = true
  · rw [if_pos huse]
    by_cases hnil : paths.isEmpty = true
    · rw [if_pos hnil]
      refine ⟨[], rfl, fun _ => ?_⟩
      exact (List.isEmpty_iff.mp hnil).symm
    · rw [if_neg hnil]
      refine ⟨paths, ?_, fun _ => rfl⟩
      have hlisted : ((Dict.get [("enable_lora", Json.bool true), ("lora_modules",
          .arr (paths.map fun word => .obj (parseLoraModule rd word)))] "lora_modules").filter
          Json.truthy).getD (.arr []) =
            .arr (paths.map fun word => .obj (parseLoraModule rd word)) := by
        have htruthy : (Json.arr (paths.map fun word => .obj (parseLoraModule rd word))).truthy =
            true := by
          simpa [Json.truthy] using hnil
        rw [Dict.get_cons_ne (by decide), Dict.get_cons_self, Option.filter_some_pos htruthy,
          Option.getD_some]
      rw [hlisted]
      exact sglangLoraPaths_words fun word hmem => (h.adapters paths hpaths word hmem).2
  · rw [if_neg huse]
    exact ⟨[], rfl, fun huse' => absurd huse' huse⟩

/-! ## The second command line -/

/-- The flags of the default host and port, where there are no others. -/
def endpointFlags (flags : List Flag) : List Flag :=
  (if "--host" ∈ flags.map Flag.name then [] else [⟨"--host", ["localhost"]⟩]) ++
    if "--port" ∈ flags.map Flag.name then [] else [⟨"--port", ["30000"]⟩]

/-- The flags of the settings come again. -/
theorem filterMap_readSettings (hbrace : rd.NoBrace) (h : SglangSettings rd env cfg tag) :
    (readSettings rd env cfg).filterMap (fun p => sglangFlagOf env (neutral p.1, p.2)) =
      settingFlags env cfg := by
  unfold readSettings
  rw [List.filterMap_map]
  refine (List.filterMap_congr fun f hf => ?_).trans List.filterMap_some
  obtain ⟨hkept, key, hnamed⟩ := named_settingFlags hbrace h hf
  exact Flag.flagOf_setting hnamed hkept

/-- A flag of a setting by its name. -/
theorem mem_readSettings (hbrace : rd.NoBrace) (h : SglangSettings rd env cfg tag) {key : String}
    (hkey : kebab key = key) (hsnake : snake key = key) :
    key ∈ (readSettings rd env cfg).keys ↔
      flagName key ∈ (settingFlags env cfg).map Flag.name := by
  unfold readSettings Dict.keys
  rw [List.map_map]
  constructor
  · intro hmem
    obtain ⟨f, hf, rfl⟩ := List.mem_map.mp hmem
    obtain ⟨-, key, hnamed⟩ := named_settingFlags hbrace h hf
    exact List.mem_map.mpr ⟨f, hf, hnamed.name_setting⟩
  · intro hmem
    obtain ⟨f, hf, hname⟩ := List.mem_map.mp hmem
    obtain ⟨-, key', hnamed⟩ := named_settingFlags hbrace h hf
    refine List.mem_map.mpr ⟨f, hf, ?_⟩
    have hkebab : kebab key' = kebab key := by
      have hslice := congrArg (fun s => sliceFrom s 2) (hnamed.name_eq.symm.trans hname)
      exact sliceFrom_flag.symm.trans (hslice.trans sliceFrom_flag)
    show snake (sliceFrom f.name 2) = key
    rw [hnamed.slice, hkebab, hkey, hsnake]

theorem host_flag : flagName "host" = "--host" := by decide +kernel

theorem port_flag : flagName "port" = "--port" := by decide +kernel

/-- The flags of the settings that are left are those of the settings of flags. -/
theorem filterMap_restSettings :
    ((restSettings rd env cfg paths).map fun p => (neutral p.1, p.2)).filterMap (sglangFlagOf env) =
      (((readSettings rd env cfg).pop "port").pop "host").filterMap
        fun p => sglangFlagOf env (neutral p.1, p.2) := by
  have hskip {key : String} (hkey : key ∈ ["enable_metrics", "enable_lora", "lora_modules"])
      (v : Json) : sglangFlagOf env (neutral key, v) = none := by
    have hall : ∀ key ∈ ["enable_metrics", "enable_lora", "lora_modules"],
        neutral key ∈ sglangSkipCliKeys := by decide
    unfold sglangFlagOf
    rw [if_pos (hall key hkey)]
  have hlora : (loraSettings rd cfg paths).filterMap
      (fun p => sglangFlagOf env (neutral p.1, p.2)) = [] := by
    refine List.filterMap_eq_nil_iff.mpr fun p hp => hskip ?_ p.2
    rcases keys_loraSettings (List.mem_map_of_mem hp) with hkey | hkey <;> rw [hkey] <;> decide
  unfold restSettings
  rw [List.filterMap_map]
  show List.filterMap (fun p : String × Json => sglangFlagOf env (neutral p.1, p.2)) _ = _
  have hmetrics := @hskip "enable_metrics" (by decide) (.bool true)
  simp only [List.filterMap_cons, hmetrics, List.filterMap_append, hlora, List.nil_append]

/-- **The flags of the settings come again**, with the default host and port. -/
theorem settingFlags_rebuilt (hbrace : rd.NoBrace) (h : SglangSettings rd env cfg tag) :
    (settingFlags env (rebuiltConfig rd env cfg tag paths)).Perm
      (settingFlags env cfg ++ endpointFlags (settingFlags env cfg)) := by
  have hread : (readSettings rd env cfg).Unique := (setting_keys hbrace h).1
  let g : String × Json → Option Flag := fun p => sglangFlagOf env (neutral p.1, p.2)
  let host := ((readSettings rd env cfg).get "host").getD (.str "localhost")
  let port := ((readSettings rd env cfg).get "port").getD (.int 30000)
  have hsplit : settingFlags env (rebuiltConfig rd env cfg tag paths) =
      (sglangRename (restSettings rd env cfg paths)).filterMap (sglangFlagOf env) ++
        ((g ("host", host)).toList ++ (g ("port", port)).toList) := by
    have hpair (a b : String × Json) : [a, b].filterMap (sglangFlagOf env) =
        (sglangFlagOf env a).toList ++ (sglangFlagOf env b).toList := by
      cases ha : sglangFlagOf env a <;> cases hb : sglangFlagOf env b <;> simp [ha, hb]
    have hskip {key : String} (hkey : key ∈ sglangSkipCliKeys) (v : Json) :
        sglangFlagOf env (key, v) = none := by
      unfold sglangFlagOf
      rw [if_pos hkey]
    have hbase : [("model_tag", Json.str tag), ("engine", .str "sglang")].filterMap
        (sglangFlagOf env) = [] := by
      rw [hpair, hskip (by decide), hskip (by decide)]
      rfl
    unfold settingFlags rebuiltConfig
    rw [List.filterMap_append, List.filterMap_append, hbase, hpair, List.nil_append]
    rfl
  have hrest : ((sglangRename (restSettings rd env cfg paths)).filterMap (sglangFlagOf env)).Perm
      ((((readSettings rd env cfg).pop "port").pop "host").filterMap g) :=
    ((sglangRename_perm hbrace h).filterMap (sglangFlagOf env)).trans (.of_eq filterMap_restSettings)
  -- the host, and then the port, is put back
  have hhost := @Dict.filterMap_pop_perm _ _ "host" (.str "localhost") _ g
    (@Dict.Unique.pop _ _ "port" hread)
  have hport := @Dict.filterMap_pop_perm _ _ "port" (.int 30000) _ g hread
  rw [Dict.get_pop_ne (by decide)] at hhost
  have hhostMem : "host" ∈ ((readSettings rd env cfg).pop "port").keys ↔
      "--host" ∈ (settingFlags env cfg).map Flag.name := by
    rw [← host_flag, ← mem_readSettings hbrace h (by decide +kernel) (by decide +kernel),
      Dict.mem_keys_pop]
    exact and_iff_left (by decide)
  have hportMem : "port" ∈ (readSettings rd env cfg).keys ↔
      "--port" ∈ (settingFlags env cfg).map Flag.name := by
    rw [← port_flag, ← mem_readSettings hbrace h (by decide +kernel) (by decide +kernel)]
  have hhostFlag : (g ("host", .str "localhost")).toList = [⟨"--host", ["localhost"]⟩] := by
    rw [← host_flag]
    rfl
  have hportFlag : (g ("port", .int 30000)).toList = [⟨"--port", ["30000"]⟩] := by
    rw [← port_flag]
    rfl
  simp only [hhostMem, hhostFlag] at hhost
  simp only [hportMem, hportFlag, filterMap_readSettings hbrace h, g] at hport
  rw [hsplit, ← List.append_assoc]
  refine ((hrest.append_right _).append_right _).trans ?_
  refine (hhost.append_right _).trans ?_
  rw [List.append_assoc]
  refine (List.perm_append_comm.append_left _).trans ?_
  rw [← List.append_assoc]
  refine (hport.append_right _).trans ?_
  rw [List.append_assoc]
  exact List.perm_append_comm.append_left _

/-- **A command line that was built, parsed and built again** has the flags of the first, in some
order, and those of the default host and port if the first had none. -/
theorem rebuilt_sglang (hbrace : rd.NoBrace) (h : SglangSettings rd env cfg tag)
    {args : List String} (hargs : buildSglangCliArgs env cfg = .ok args) :
    ∃ paths parsed args' paths', args = (sglangFlags env cfg (.str tag) paths).flatMap Flag.words ∧
      parseSglangCommand rd (Shlex.join (["python", "-m", "sglang.launch_server"] ++ args)) =
        .ok parsed ∧
      buildSglangCliArgs env
        (parsed.modelConfig.update [("host", parsed.host), ("port", parsed.port)]) = .ok args' ∧
      args' = (sglangFlags env
        (parsed.modelConfig.update [("host", parsed.host), ("port", parsed.port)])
        (.str tag) paths').flatMap Flag.words ∧
      (sglangFlags env (parsed.modelConfig.update [("host", parsed.host), ("port", parsed.port)])
        (.str tag) paths').Perm
        (sglangFlags env cfg (.str tag) paths ++ endpointFlags (settingFlags env cfg)) := by
  obtain ⟨tag', paths, htag, -, hpaths, rfl⟩ := buildSglangCliArgs_eq_ok hargs
  cases Option.some.inj (htag.symm.trans h.tag_eq)
  obtain ⟨parsed, hparsed, hconfig, hhost, hport⟩ :=
    parse_built hbrace h fun word hmem => (h.adapters paths hpaths word hmem).1
  obtain ⟨paths', hpaths', hsame⟩ := loraPaths_rebuiltConfig hbrace h hpaths
  have hcfg : parsed.modelConfig.update [("host", parsed.host), ("port", parsed.port)] =
      rebuiltConfig rd env cfg tag paths := by
    rw [hconfig, hhost, hport]
    exact rebuiltConfig_eq hbrace h
  refine ⟨paths, parsed, ?_⟩
  rw [hcfg]
  have hbuilds : isSet (rebuiltConfig rd env cfg tag paths) "model_tag" = true ∧
      SglangLora (rebuiltConfig rd env cfg tag paths) := by
    refine ⟨show decide (tag ≠ "") = true from decide_eq_true h.nonempty, ?_⟩
    rw [← @sglangLora_isSome env]
    unfold sglangLora
    unfold loraModules at hpaths'
    simp only [hpaths']
    split_ifs <;> rfl
  obtain ⟨args', hargs'⟩ := buildSglangCliArgs_isOk.mpr hbuilds
  obtain ⟨tag', paths'', htag', -, hpaths'', hargs''⟩ := buildSglangCliArgs_eq_ok hargs'
  cases Option.some.inj (hpaths'.symm.trans hpaths'')
  have htag'' : (rebuiltConfig rd env cfg tag paths).get "model_tag" = some (.str tag) := rfl
  cases Option.some.inj (htag''.symm.trans htag')
  refine ⟨args', paths', rfl, hparsed, hargs', hargs'', ?_⟩
  have hserved : (rebuiltConfig rd env cfg tag paths).get "served_model_name" = none := by
    rw [get_rebuiltConfig hbrace h (by decide), Dict.get_eq_none_iff]
    intro hmem
    rcases keys_loraSettings hmem with heq | heq <;> exact absurd heq (by decide)
  have hhead : (if usesLora (rebuiltConfig rd env cfg tag paths) then sglangLoraFlags paths' else []) =
      if usesLora cfg then sglangLoraFlags paths else [] := by
    rw [usesLora_rebuiltConfig hbrace h]
    split_ifs with huse
    · rw [hsame huse]
    · rfl
  unfold sglangFlags
  rw [hserved, hhead, served_eq h, List.append_assoc, List.append_assoc, List.append_assoc]
  exact ((settingFlags_rebuilt hbrace h).append_left _).append_left _

theorem decimalReader_noBrace : decimalReader.NoBrace := by
  intro s hs
  obtain ⟨cs, hcs⟩ := startsWith_iff.mp hs
  have hlist : s.toList = Char.ofNat 123 :: cs := hcs.symm
  constructor
  · show readDecimal s = none
    unfold readDecimal
    rw [hlist]
    rfl
  · refine if_neg ?_
    rintro rfl
    exact absurd hs (by decide)

/-- Settings with a renamed parameter, a switch, a list of one value and an adapter, launched at a host
and a port. -/
def sglangExample : Dict Json :=
  Dict.update (EngineModelConfig.dump {
    modelTag := "Qwen/Qwen3"
    engine := .sglang
    dtype := some "auto"
    maxModelLen := some 4096
    loraModules := some [{ name := "sql", path := "repo/sql" }]
    extra := ⟨[("disable_radix_cache", .bool true), ("lora_target_modules", .arr [.str "q_proj"])],
      by decide, by decide⟩ }) [("host", .str "127.0.0.1"), ("port", .int 8001)]

theorem sglangExample_settings : SglangSettings decimalReader {} sglangExample "Qwen/Qwen3" where
  tag_eq := rfl
  nonempty := by decide
  tagText := coerce_text (by decide +kernel) (by decide +kernel) (by decide +kernel) (by decide)
  tagDash := by decide
  served v hv := by
    have hnone : sglangExample.get "served_model_name" = none :=
      Dict.get_eq_none_iff.mpr (by decide +kernel)
    rw [hnone] at hv
    cases hv
  kept := by decide +kernel
  keys := by decide +kernel
  distinct := by decide +kernel
  adapters paths hpaths word hword := by
    have hsome : sglangLoraPaths {} (loraModules sglangExample) = some ["sql=repo/sql"] := by
      decide +kernel
    rw [hsome] at hpaths
    cases hpaths
    cases List.mem_singleton.mp hword
    exact ⟨by decide +kernel, "sql", "repo/sql", rfl, by decide,
      ⟨by decide, by decide, by decide +kernel, by decide +kernel, fun _ _ h => by cases h⟩⟩

theorem rebuilt_sglang_example : ∃ args paths parsed args' paths',
    buildSglangCliArgs {} sglangExample = .ok args ∧
    parseSglangCommand decimalReader (Shlex.join (["python", "-m", "sglang.launch_server"] ++ args)) =
      .ok parsed ∧
    buildSglangCliArgs {}
      (parsed.modelConfig.update [("host", parsed.host), ("port", parsed.port)]) = .ok args' ∧
    (sglangFlags {} (parsed.modelConfig.update [("host", parsed.host), ("port", parsed.port)])
      (.str "Qwen/Qwen3") paths').Perm
      (sglangFlags {} sglangExample (.str "Qwen/Qwen3") paths) := by
  have hbuilds : ((buildSglangCliArgs {} sglangExample).toOption).isSome = true := by
    decide +kernel
  obtain ⟨args, hargs⟩ := Option.isSome_iff_exists.mp hbuilds
  have hargs := toOption_eq_some.mp hargs
  obtain ⟨paths, parsed, args', paths', -, hparsed, hargs', -, hperm⟩ :=
    rebuilt_sglang decimalReader_noBrace sglangExample_settings hargs
  have hnone : endpointFlags (settingFlags {} sglangExample) = [] := by decide +kernel
  rw [hnone, List.append_nil] at hperm
  exact ⟨args, paths, parsed, args', paths', hargs, hparsed, hargs', hperm⟩

/-- A served name does not come back: the parser takes it for the name of the
instance only, and the model is served under its own name. -/
theorem served_name_lost : ∃ c : EngineModelConfig, ∃ args parsed args',
    buildSglangCliArgs {} c.dump = .ok args ∧
    parseSglangCommand decimalReader (Shlex.join (["python", "-m", "sglang.launch_server"] ++ args)) =
      .ok parsed ∧
    buildSglangCliArgs {}
      (parsed.modelConfig.update [("host", parsed.host), ("port", parsed.port)]) = .ok args' ∧
    "alias" ∈ args ∧ "alias" ∉ args' := by
  have hlost : ((buildSglangCliArgs {} (EngineModelConfig.dump {
      modelTag := "Qwen/Qwen3"
      engine := .sglang
      extra := ⟨[("served_model_name", .str "alias"), ("host", .str "127.0.0.1"),
        ("port", .int 8001)], by decide, by decide⟩ })).toOption.any fun args =>
      (parseSglangCommand decimalReader
        (Shlex.join (["python", "-m", "sglang.launch_server"] ++ args))).toOption.any fun parsed =>
          (buildSglangCliArgs {} (parsed.modelConfig.update
            [("host", parsed.host), ("port", parsed.port)])).toOption.any fun args' =>
              decide ("alias" ∈ args ∧ "alias" ∉ args')) = true := by
    decide +kernel
  obtain ⟨args, hargs, hrest⟩ := (Option.any_eq_true _ _).mp hlost
  obtain ⟨parsed, hparsed, hrest⟩ := (Option.any_eq_true _ _).mp hrest
  obtain ⟨args', hargs', hmem⟩ := (Option.any_eq_true _ _).mp hrest
  exact ⟨_, args, parsed, args', toOption_eq_some.mp hargs, toOption_eq_some.mp hparsed,
    toOption_eq_some.mp hargs', of_decide_eq_true hmem⟩

end Llmops.Config
