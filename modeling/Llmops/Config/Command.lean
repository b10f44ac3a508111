import Llmops.Config.Launch
import Llmops.Lib.Shlex

/-!
# Pasted commands (`services/vllm_command.py`)

`parse_vllm_command` and `parse_sglang_command`: a shell command becomes the settings of a group and
the fields of an instance. The two share the loop over the flags (`flagsLoop`), the naming of the
group and the return (`assemble`) and differ in where the model stands, in the flag that lists the
adapters and in the names of three settings. `int()`, `float()` and `json.loads` of a text are a
parameter (`Reader`); digits and letters of a name are those of ASCII.

* `flagsLoop_pieces`: the settings that a line of well-formed flags becomes;
* `coerce_toString`, `coerce_repr`: a number is read back as it was written.
-/

namespace Llmops.Config

open Lib

/-- What Python reads a text as: `none` where it raises. `int(str(n))` is `n`, and a float is read
back from its `repr`, which no integer and no boolean is written like. -/
structure Reader where
  int : String → Option Int
  float : String → Option PyFloat
  loads : String → Option Json
  int_toString (n : Int) : int (toString n) = some n
  float_repr {s : String} {x : PyFloat} : float s = some x → int x.repr = none ∧
    float x.repr = some x ∧ lower x.repr ≠ "true" ∧ lower x.repr ≠ "false"

section Parse

variable (rd : Reader)

/-! ## Values -/

/-- `name=path`, or a name alone. -/
def shortLora (text : String) : Dict Json :=
  match splitFirst ['='] text.toList with
  | some (name, path) =>
    [("name", .str (strip (.ofList name))), ("path", .str (strip (.ofList path)))]
  | none => [("name", .str text), ("path", .str "")]

/-- `_parse_lora_module`: a JSON object with a name, or the short form. -/
def parseLoraModule (value : String) : Dict Json :=
  let text := strip value
  match if startsWith text "\x7b" then rd.loads text else none with
  | some (.obj obj) => if isSet obj "name" then obj else shortLora text
  | _ => shortLora text

/-- `_coerce`. -/
def coerce (value : String) : Json :=
  if lower value = "true" then .bool true
  else if lower value = "false" then .bool false
  else
    match rd.int value with
    | some n => .int n
    | none =>
      match rd.float value with
      | some x => .float x
      | none => .str value

/-- Runs of other characters than letters and digits become one dash. -/
def dashed : Bool → List Char → List Char
  | _, [] => []
  | after, c :: cs =>
    if c.isAlphanum then c :: dashed false cs
    else if after then dashed true cs
    else '-' :: dashed true cs

/-- `_slug`. -/
def slug (text : String) : String :=
  let dashes := dashed false (lower (strip text)).toList
  let s := ((dashes.dropWhile (· = '-')).reverse.dropWhile (· = '-')).reverse
  if s = [] then "inst" else .ofList s

/-- `key.replace("-", "_")`. -/
def snake (key : String) : String := key.map fun c => if c = '-' then '_' else c

/-! ## The environment -/

/-- `_ENV_ASSIGN.match(token)`. -/
def envAssign (token : String) : Bool :=
  match splitFirst ['='] token.toList with
  | some (c :: name, _) =>
    (c.isAlpha || c = '_') && name.all fun d => d.isAlphanum || d = '_'
  | _ => false

/-- The leading assignments, and the words after them. -/
def takeEnv : Dict String → List String → Dict String × List String
  | env, [] => (env, [])
  | env, token :: tokens =>
    if envAssign token then
      let (k, v) := partition token "="
      takeEnv (env.set k v) tokens
    else (env, token :: tokens)

/-- The first of the visible devices. -/
def cudaDevice (env : Dict String) : Option Int :=
  ((env.get "CUDA_VISIBLE_DEVICES").map fun v => (partition v ",").1).bind fun first =>
    if first ≠ "" ∧ first.toList.all Char.isDigit then rd.int first else none

/-! ## The flags -/

/-- The flag that lists adapters, in its two spellings, and whether it switches LoRA on. -/
structure LoraFlag where
  names : List String
  enables : Bool

def vllmLoraFlag : LoraFlag := ⟨["lora-modules", "lora_modules"], false⟩

def sglangLoraFlag : LoraFlag := ⟨["lora-paths", "lora_paths"], true⟩

/-- The adapters that were listed. -/
def LoraFlag.set (l : LoraFlag) (flags : Dict Json) (values : List String) : Dict Json :=
  let flags := flags.set "lora_modules" (.arr (values.map fun v => .obj (parseLoraModule rd v)))
  if l.enables then flags.set "enable_lora" (.bool true) else flags

/-- A value of the list of adapters. -/
def loraValue (word : String) : Bool := !startsWith word "--"

/-- The loop over the words: `--k v`, `--k=v` and `--k`. Of the first words as many are skipped as
have been consumed. -/
def flagsLoop (l : LoraFlag) : Nat → List String → Dict Json → Dict Json
  | _, [], flags => flags
  | skip + 1, _ :: rest, flags => flagsLoop l skip rest flags
  | 0, tok :: rest, flags =>
    if startsWith tok "--" then
      let name := sliceFrom tok 2
      if name ∈ l.names then
        let values := rest.takeWhile loraValue
        flagsLoop l values.length rest (l.set rd flags values)
      else if '=' ∈ name.toList then
        let (k, v) := partition name "="
        flagsLoop l 0 rest (flags.set k (coerce rd v))
      else
        match rest.head? with
        | some next =>
          if startsWith next "-" then flagsLoop l 0 rest (flags.set name (.bool true))
          else flagsLoop l 1 rest (flags.set name (coerce rd next))
        | none => flagsLoop l 0 rest (flags.set name (.bool true))
    else flagsLoop l 0 rest flags

/-- kebab-case to snake_case. -/
def snakeKeys (flags : Dict Json) : Dict Json :=
  Dict.update [] (flags.map fun p => (snake p.1, p.2))

/-! ## What is returned -/

/-- `ValueError` for an empty command and from `shlex`, and what a name that is no text raises. -/
inductive Refused where
  | emptyCommand
  | notClosed
  | notText
  deriving DecidableEq, Repr

structure ParsedCommand where
  group : String
  id : String
  host : Json
  port : Json
  cudaDevice : Option Int
  modelConfig : Dict Json
  warnings : List String

/-- A name that Python splits or strips. -/
def asText (v : Json) : Except Refused String :=
  match v with
  | .str s => .ok s
  | _ => .error .notText

/-- `text.split("/")[-1]`. -/
def lastPart (text : String) : String :=
  .ofList (text.toList.reverse.takeWhile (· ≠ '/')).reverse

/-- The words of a command after its environment. -/
def commandWords (command : String) : Except Refused (Dict String × List String) :=
  if strip command = "" then .error .emptyCommand
  else
    match Shlex.split command with
    | none => .error .notClosed
    | some tokens => .ok (takeEnv [] tokens)

/-- The end of both parsers: the instance's fields are taken out of the settings, and the group and
the instance are named. -/
def assemble (env : Dict String) (modelTag : Option Json) (norm base : Dict Json)
    (rename : Dict Json → Dict Json) (noTag : String) (defaultPort : Int) :
    Except Refused ParsedCommand := do
  let port := norm.get "port"
  let host := (norm.get "host").getD (.str "localhost")
  let served := (norm.get "served_model_name").filter Json.truthy
  let norm := rename (((norm.pop "port").pop "host").pop "served_model_name")
  let servedName ← served.mapM asText
  let group ←
    match modelTag.filter Json.truthy with
    | some tag => (asText tag).map lastPart
    | none => .ok (servedName.getD "model")
  return {
    group
    id := (servedName.map slug).getD (slug group ++ "-1")
    host
    port := port.getD (.int defaultPort)
    cudaDevice := cudaDevice rd env
    modelConfig := base.update norm
    warnings :=
      (if modelTag.isNone then [noTag] else []) ++
      (if port.isNone then ["no --port found; defaulting to " ++ toString defaultPort] else []) ++
      (if served.isSome then
        ["--served-model-name ignored for naming; the router uses the group name"] else []) }

/-- `parse_vllm_command`. -/
def parseVllmCommand (command : String) : Except Refused ParsedCommand := do
  let (env, tokens) ← commandWords command
  -- the executable is stripped; the model stands behind `serve`
  let (tag, rest) :=
    if "serve" ∈ tokens then
      match (tokens.dropWhile (· ≠ "serve")).tail with
      | [] => (none, [])
      | word :: rest => if startsWith word "-" then (none, word :: rest) else (some word, rest)
    else (none, tokens.dropWhile fun word => !startsWith word "-")
  let flags := flagsLoop rd vllmLoraFlag 0 rest []
  let (modelTag, flags) :=
    match tag with
    | some word => (some (.str word), flags)
    | none => (flags.get "model", flags.pop "model")
  assemble rd env modelTag (snakeKeys flags) [("model_tag", modelTag.getD .null)] id
    "could not detect a model tag (expected `vllm serve <model>` or `--model`)" 8000

def sglangReverseMap : Dict String :=
  [("context_length", "max_model_len"), ("mem_fraction_static", "gpu_memory_utilization"),
    ("tp_size", "tensor_parallel_size")]

/-- The flags that SGLang renames get their neutral names back. -/
def sglangRename (norm : Dict Json) : Dict Json :=
  sglangReverseMap.foldl (fun norm p =>
    match norm.get p.1 with
    | some v => (norm.pop p.1).set p.2 v
    | none => norm) norm

/-- `parse_sglang_command`. -/
def parseSglangCommand (command : String) : Except Refused ParsedCommand := do
  let (env, tokens) ← commandWords command
  let rest := tokens.dropWhile fun word => !startsWith word "-"
  let norm := snakeKeys (flagsLoop rd sglangLoraFlag 0 rest [])
  -- `norm.pop("model_path", None) or norm.pop("model", None)`
  let path := (norm.get "model_path").filter Json.truthy
  let norm := norm.pop "model_path"
  let (modelTag, norm) :=
    match path with
    | some tag => (some tag, norm)
    | none => (norm.get "model", norm.pop "model")
  assemble rd env modelTag norm [("model_tag", modelTag.getD .null), ("engine", .str "sglang")]
    sglangRename "could not detect a model tag (expected `--model-path <model>`)" 30000

end Parse

/-! ## Numbers are read back -/

section Coerce

variable {rd : Reader}

/-- An integer is written with digits and a sign, so as no boolean is. -/
theorem lower_toString_ne (n : Int) {text : String} (h : 'e' ∈ text.toList) :
    lower (toString n) ≠ text := by
  intro heq
  have hdigit (m : Nat) : ∀ c ∈ (Nat.repr m).toList, c.isDigit = true := by
    intro c hc
    rw [Nat.toList_repr] at hc
    exact Nat.isDigit_of_mem_toDigits (by decide) (by decide) hc
  have hchars : ∀ c ∈ (toString n).toList, c.isDigit = true ∨ c = '-' := by
    intro c hc
    cases n with
    | ofNat m => exact Or.inl (hdigit m c hc)
    | negSucc m =>
      change c ∈ ("-" ++ Nat.repr (m + 1)).toList at hc
      rw [String.toList_append] at hc
      rcases List.mem_append.mp hc with hc | hc
      · exact Or.inr (List.mem_singleton.mp hc)
      · exact Or.inl (hdigit _ c hc)
  rw [← heq, lower, String.toList_map] at h
  obtain ⟨c, hc, hlow⟩ := List.mem_map.mp h
  rcases hchars c hc with hd | rfl
  · have halpha : c.isAlpha = true := by
      rw [← Char.isAlpha_toLower_eq_isAlpha, hlow]
      rfl
    simp only [Char.isDigit, Char.isAlpha, Char.isUpper, Char.isLower, Bool.or_eq_true,
      Bool.and_eq_true, decide_eq_true_eq, ge_iff_le, UInt32.le_iff_toNat_le] at hd halpha
    simp at hd halpha
    omega
  · exact absurd hlow (by decide)

theorem coerce_toString (n : Int) : coerce rd (toString n) = .int n := by
  unfold coerce
  rw [if_neg (lower_toString_ne n (by decide)), if_neg (lower_toString_ne n (by decide)),
    rd.int_toString]

theorem coerce_repr {s : String} {x : PyFloat} (h : rd.float s = some x) :
    coerce rd x.repr = .float x := by
  obtain ⟨hint, hfloat, htrue, hfalse⟩ := rd.float_repr h
  unfold coerce
  rw [if_neg htrue, if_neg hfalse, hint, hfloat]

end Coerce

/-! ## A reader of decimal integers -/

/-- A number in decimal digits. -/
def readDigits (cs : List Char) : Option Nat :=
  if cs ≠ [] ∧ cs.all Char.isDigit then some (Nat.ofDigitChars 10 cs 0) else none

/-- An integer in decimal digits. -/
def readDecimal (s : String) : Option Int :=
  match s.toList with
  | '-' :: cs => (readDigits cs).map fun n => -(n : Int)
  | cs => (readDigits cs).map Int.ofNat

theorem readDigits_repr (n : Nat) : readDigits (Nat.repr n).toList = some n := by
  have hne : Nat.toDigits 10 n ≠ [] := by
    intro h
    have hpos := @Nat.length_toDigits_pos 10 n
    rw [h] at hpos
    exact absurd hpos (by decide)
  have hall : (Nat.toDigits 10 n).all Char.isDigit = true :=
    List.all_eq_true.mpr fun c hc => Nat.isDigit_of_mem_toDigits (by decide) (by decide) hc
  unfold readDigits
  rw [Nat.toList_repr, if_pos ⟨hne, hall⟩, Nat.ofDigitChars_ten_toDigits]

/-- An integer is read back from its digits. -/
theorem readDecimal_toString (n : Int) : readDecimal (toString n) = some n := by
  unfold readDecimal
  cases n with
  | ofNat n =>
    rw [show (toString (Int.ofNat n)).toList = (Nat.repr n).toList from rfl]
    have hdash : ∀ cs, (Nat.repr n).toList ≠ '-' :: cs := by
      intro cs h
      have hmem : '-' ∈ Nat.toDigits 10 n := by
        rw [← Nat.toList_repr, h]
        exact List.mem_cons_self
      exact absurd (Nat.isDigit_of_mem_toDigits (by decide) (by decide) hmem) (by decide)
    split
    · next cs h => exact absurd h (hdash cs)
    · rw [readDigits_repr]
      rfl
  | negSucc n =>
    have hlist : (toString (Int.negSucc n)).toList = '-' :: (Nat.repr (n + 1)).toList := by
      show ("-" ++ Nat.repr (n + 1)).toList = _
      rw [String.toList_append]
      rfl
    rw [hlist]
    simp only [readDigits_repr]
    rfl

/-- A reader of integers in decimal and of one float. -/
def decimalReader : Reader where
  int s := readDecimal s
  float s := if s = "0.85" then some ⟨17 / 20, "0.85"⟩ else none
  loads _ := none
  int_toString := readDecimal_toString
  float_repr := by
    intro s x h
    split_ifs at h
    cases h
    decide +kernel

/-! ## A line of flags -/

/-- A flag as it stands on a command line: `--k v`, `--k=v`, `--k`, and a list of adapters. -/
inductive Piece where
  | spaced (key value : String)
  | glued (key value : String)
  | bare (key : String)
  | listed (key : String) (values : List String)

namespace Piece

def words : Piece → List String
  | spaced key value => ["--" ++ key, value]
  | glued key value => ["--" ++ key ++ "=" ++ value]
  | bare key => ["--" ++ key]
  | listed key values => ("--" ++ key) :: values

/-- A key has no equals sign, a value that stands alone does not look like a flag, and the flag that
lists adapters is used as such only. -/
def Formed (l : LoraFlag) : Piece → Prop
  | spaced key value => '=' ∉ key.toList ∧ key ∉ l.names ∧ startsWith value "-" = false
  | glued key _ => '=' ∉ key.toList
  | bare key => '=' ∉ key.toList ∧ key ∉ l.names
  | listed key values => key ∈ l.names ∧ ∀ v ∈ values, loraValue v = true

instance (l : LoraFlag) (p : Piece) : Decidable (p.Formed l) :=
  match p with
  | spaced _ _ => inferInstanceAs (Decidable (_ ∧ _ ∧ _))
  | glued key _ => inferInstanceAs (Decidable ('=' ∉ key.toList))
  | bare _ => inferInstanceAs (Decidable (_ ∧ _))
  | listed _ _ => inferInstanceAs (Decidable (_ ∧ ∀ _ ∈ _, _))

variable (rd : Reader) (l : LoraFlag)

/-- What the loop makes of a flag. -/
def apply (flags : Dict Json) : Piece → Dict Json
  | spaced key value | glued key value => flags.set key (coerce rd value)
  | bare key => flags.set key (.bool true)
  | listed _ values => l.set rd flags values

end Piece

section Loop

variable {rd : Reader} {l : LoraFlag} {key : String}

theorem startsWith_flag : startsWith ("--" ++ key) "--" = true := by
  rw [startsWith_iff, String.toList_append]
  exact List.prefix_append _ _

theorem sliceFrom_flag : sliceFrom ("--" ++ key) 2 = key := by
  unfold sliceFrom
  rw [String.toList_append, show "--".toList = ['-', '-'] from rfl]
  exact String.ofList_toList

theorem partition_glued {value : String} (h : '=' ∉ key.toList) :
    partition (key ++ "=" ++ value) "=" = (key, value) := by
  unfold partition
  rw [String.toList_append, String.toList_append, List.append_assoc,
    show "=".toList = ['='] from rfl, List.singleton_append, splitFirst_singleton h]
  simp

/-- The words that have been consumed. -/
theorem flagsLoop_skip {rest : List String} {flags : Dict Json} (values : List String) :
    flagsLoop rd l values.length (values ++ rest) flags = flagsLoop rd l 0 rest flags := by
  induction values with
  | nil => rfl
  | cons v values ih => exact ih

/-- The first word of a line of flags is a flag. -/
theorem head_words (ps : List Piece) :
    ∀ word ∈ (ps.flatMap Piece.words).head?, startsWith word "--" = true := by
  intro word hword
  cases ps with
  | nil => simp at hword
  | cons p ps =>
    have hflag : ∃ key, word = "--" ++ key := by
      cases p with
      | glued key value =>
        refine ⟨key ++ ("=" ++ value), ?_⟩
        simpa [Piece.words, String.append_assoc] using hword.symm
      | spaced key _ | bare key | listed key _ =>
        exact ⟨key, by simpa [Piece.words] using hword.symm⟩
    obtain ⟨key, rfl⟩ := hflag
    exact startsWith_flag

/-- **A line of flags**: the loop takes them one after the other. -/
theorem flagsLoop_pieces {ps : List Piece} {flags : Dict Json} (h : ∀ p ∈ ps, p.Formed l)
    (hnames : ∀ name ∈ l.names, '=' ∉ name.toList) :
    flagsLoop rd l 0 (ps.flatMap Piece.words) flags = ps.foldl (Piece.apply rd l) flags := by
  induction ps generalizing flags with
  | nil => rfl
  | cons p ps ih =>
    have ih := fun flags => @ih flags fun p hp => h p (List.mem_cons_of_mem _ hp)
    have hp := h p List.mem_cons_self
    rw [List.flatMap_cons, List.foldl_cons, ← ih]
    cases p with
    | spaced key value =>
      obtain ⟨hkey, hname, hvalue⟩ := hp
      simp only [Piece.words, List.cons_append, List.nil_append]
      rw [flagsLoop, if_pos startsWith_flag, sliceFrom_flag, if_neg hname, if_neg hkey]
      simp only [List.head?_cons, hvalue, Bool.false_eq_true, if_false]
      rfl
    | glued key value =>
      have hname : key ++ "=" ++ value ∉ l.names := by
        intro hmem
        exact hnames _ hmem (by simp)
      have hmem : '=' ∈ (key ++ "=" ++ value).toList := by simp
      simp only [Piece.words, List.cons_append, List.nil_append]
      rw [flagsLoop, String.append_assoc, String.append_assoc, if_pos startsWith_flag,
        sliceFrom_flag, ← String.append_assoc, if_neg hname, if_pos hmem, partition_glued hp]
      rfl
    | bare key =>
      obtain ⟨hkey, hname⟩ := hp
      simp only [Piece.words, List.cons_append, List.nil_append]
      rw [flagsLoop, if_pos startsWith_flag, sliceFrom_flag, if_neg hname, if_neg hkey]
      cases hrest : (ps.flatMap Piece.words).head? with
      | none => rfl
      | some word =>
        have hword := startsWith_iff.mp (head_words ps word hrest)
        have hdash : startsWith word "-" = true :=
          startsWith_iff.mpr (List.IsPrefix.trans ⟨['-'], rfl⟩ hword)
        simp only [hdash, if_true]
        rfl
    | listed key values =>
      obtain ⟨hname, hvalues⟩ := hp
      have htake : (values ++ ps.flatMap Piece.words).takeWhile loraValue = values := by
        rw [List.takeWhile_append_of_pos hvalues]
        cases hrest : ps.flatMap Piece.words with
        | nil => simp
        | cons word rest =>
          have hword := head_words ps word (by rw [hrest]; rfl)
          rw [List.takeWhile_cons_of_neg (by simp [loraValue, hword]), List.append_nil]
      simp only [Piece.words, List.cons_append]
      rw [flagsLoop, if_pos startsWith_flag, sliceFrom_flag, if_pos hname, htake, flagsLoop_skip]
      rfl

end Loop

end Llmops.Config
