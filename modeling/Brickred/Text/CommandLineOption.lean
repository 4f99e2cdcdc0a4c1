import Mathlib.Logic.Function.Basic
import Brickred.Text.Split

/-!
# Command line options (`command_line_option.cc`)

A command line is a list of items, and `render` is how one writes them. Reading the
rendered list gives the items back, one after the other, whatever follows them; the one
item that is not read is a value that is given as an argument of its own and is empty,
since `parse` takes an empty argument for none.
-/

namespace Brickred

open StringUtil

/-- `CommandLineOption::ParameterType` -/
inductive ParameterType where
  | none
  | required
deriving DecidableEq

/-- `CommandLineOption`. Of the maps only what they hold for a key is used. -/
structure CommandLineOption where
  optionTypes : Bytes → Option ParameterType
  optionParams : Bytes → Option (List Bytes)
  leftArgs : List Bytes

namespace CommandLineOption

/-- The constructor. -/
def empty : CommandLineOption := ⟨fun _ => Option.none, fun _ => Option.none, []⟩

/-- `std::map::insert`, which leaves a key that is there alone. -/
def insert {β : Type} (m : Bytes → Option β) (key : Bytes) (value : β) : Bytes → Option β :=
  Function.update m key (some ((m key).getD value))

/-- `CommandLineOption::addOption` -/
def addOption (s : CommandLineOption) (opt : Bytes) (paramType : ParameterType) :
    CommandLineOption :=
  { s with
    optionTypes := insert s.optionTypes opt paramType
    optionParams := insert s.optionParams opt [] }

def isOption (arg : Bytes) : Bool := decide (arg.length > 1) && arg.getD 0 0 == 45

def isLongOption (arg : Bytes) : Bool :=
  decide (arg.length > 2) && arg.getD 0 0 == 45 && arg.getD 1 0 == 45

/-- `option_params[opt].push_back(value)` -/
def pushParam (s : CommandLineOption) (opt value : Bytes) : CommandLineOption :=
  { s with
    optionParams :=
      Function.update s.optionParams opt (some ((s.optionParams opt).getD [] ++ [value])) }

/-- `processLongOption` -/
def processLongOption (s : CommandLineOption) (arg nextParam : Bytes) : Int × CommandLineOption :=
  let longOptParts := splitCStr (arg.drop 2) (bytes "=") 2
  let opt := longOptParts.getD 0 []
  match s.optionTypes opt with
  | Option.none => (-1, s)
  | some .none =>
    if longOptParts.length > 1 then (-1, s) else (1, s.pushParam opt [])
  | some .required =>
    if longOptParts.length > 1 then (1, s.pushParam opt (longOptParts.getD 1 []))
    else if nextParam = [] then (-1, s)
    else (2, s.pushParam opt nextParam)

/-- The loop of `processShortOption`, from a character of the argument on. -/
def processShortLoop (nextParam : Bytes) : Bytes → CommandLineOption → Int × CommandLineOption
  | [], s => (1, s)
  | c :: arg, s =>
    match s.optionTypes [c] with
    | Option.none => (-1, s)
    | some .none => processShortLoop nextParam arg (s.pushParam [c] [])
    | some .required =>
      if arg ≠ [] then (1, s.pushParam [c] arg)
      else if nextParam = [] then (-1, s)
      else (2, s.pushParam [c] nextParam)

/-- `processShortOption` -/
def processShortOption (s : CommandLineOption) (arg nextParam : Bytes) : Int × CommandLineOption :=
  processShortLoop nextParam (arg.drop 1) s

/-- The loop of `CommandLineOption::parse`, from an argument on. The functions for options
return 1 or 2, the number of arguments they have used, or -1. -/
def parseLoop : List Bytes → CommandLineOption → Bool × CommandLineOption
  | [], s => (true, s)
  | arg :: args, s =>
    let nextParam := args.headD []
    if arg = bytes "--" then
      (true, { s with leftArgs := s.leftArgs ++ args })
    else if isOption arg = false then
      parseLoop args { s with leftArgs := s.leftArgs ++ [arg] }
    else
      let (ret, s) :=
        if isLongOption arg then s.processLongOption arg nextParam
        else s.processShortOption arg nextParam
      if ret = -1 then (false, s) else parseLoop (args.drop (ret.toNat - 1)) s
termination_by args => args.length
decreasing_by
  · simp
  · rw [List.length_drop, List.length_cons]
    omega

/-- `CommandLineOption::parse`. The strings of `argv` end at their NUL; the first is the
name of the program. -/
def parse (s : CommandLineOption) (argv : List Bytes) : Bool × CommandLineOption :=
  parseLoop (argv.drop 1) s

/-- `CommandLineOption::getParameters` -/
def getParameters (s : CommandLineOption) (opt : Bytes) : List Bytes :=
  (s.optionParams opt).getD []

/-- An object to which the options have been added. -/
def declare (options : List (Bytes × ParameterType)) : CommandLineOption :=
  options.foldl (fun s o => s.addOption o.1 o.2) empty

/-! ## What a command line is made of -/

/-- An item of a command line. A cluster is some flags in one argument, which may end in
an option with a value, attached or in the next argument. -/
inductive Item where
  | flag (name : Bytes)
  | assigned (name value : Bytes)
  | following (name value : Bytes)
  | cluster (flags : Bytes)
  | clusterAttached (flags : Bytes) (opt : UInt8) (value : Bytes)
  | clusterFollowing (flags : Bytes) (opt : UInt8) (value : Bytes)
  | left (arg : Bytes)

namespace Item

/-- The arguments of an item. -/
def render : Item → List Bytes
  | flag name => [bytes "--" ++ name]
  | assigned name value => [bytes "--" ++ (name ++ bytes "=" ++ value)]
  | following name value => [bytes "--" ++ name, value]
  | cluster flags => [45 :: flags]
  | clusterAttached flags opt value => [45 :: (flags ++ opt :: value)]
  | clusterFollowing flags opt value => [45 :: (flags ++ [opt]), value]
  | left arg => [arg]

/-- The options of an item with their values, in order; a flag's is empty. -/
def params : Item → List (Bytes × Bytes)
  | flag name => [(name, [])]
  | assigned name value => [(name, value)]
  | following name value => [(name, value)]
  | cluster flags => flags.map fun c => ([c], [])
  | clusterAttached flags opt value => (flags.map fun c => ([c], [])) ++ [([opt], value)]
  | clusterFollowing flags opt value => (flags.map fun c => ([c], [])) ++ [([opt], value)]
  | left _ => []

/-- The left arguments of an item. -/
def lefts : Item → List Bytes
  | left arg => [arg]
  | _ => []

/-- The value that is an argument of its own. -/
def separate? : Item → Option Bytes
  | following _ value => some value
  | clusterFollowing _ _ value => some value
  | _ => Option.none

variable (types : Bytes → Option ParameterType)

/-- A long option of a type: its name is not empty and has no `=`. -/
def LongOption (name : Bytes) (paramType : ParameterType) : Prop :=
  name ≠ [] ∧ (61 : UInt8) ∉ name ∧ types name = some paramType

/-- A short option of a type: its name is not `-`. -/
def ShortOption (c : UInt8) (paramType : ParameterType) : Prop :=
  c ≠ 45 ∧ types [c] = some paramType

/-- The options of an item are declared as they are used, and its arguments are C strings. -/
def WellFormed (item : Item) : Prop :=
  (∀ arg ∈ item.render, (0 : UInt8) ∉ arg) ∧
  match item with
  | flag name => LongOption types name .none
  | assigned name _ | following name _ => LongOption types name .required
  | cluster flags => flags ≠ [] ∧ ∀ c ∈ flags, ShortOption types c .none
  | clusterAttached flags opt value =>
    (∀ c ∈ flags, ShortOption types c .none) ∧ ShortOption types opt .required ∧ value ≠ []
  | clusterFollowing flags opt _ =>
    (∀ c ∈ flags, ShortOption types c .none) ∧ ShortOption types opt .required
  | left arg => arg = [] ∨ arg = [45] ∨ arg.head? ≠ some 45

end Item

/-- The end of a command line: what follows `--`, if that is there. -/
def renderTail : Option (List Bytes) → List Bytes
  | Option.none => []
  | some args => bytes "--" :: args

/-- The values of an option. -/
def values (opt : Bytes) (params : List (Bytes × Bytes)) : List Bytes :=
  (params.filter fun p => p.1 = opt).map Prod.snd

/-! ## Parameters that are added -/

/-- Parameters added one after the other. -/
def pushAll (s : CommandLineOption) (params : List (Bytes × Bytes)) : CommandLineOption :=
  params.foldl (fun s p => s.pushParam p.1 p.2) s

/-- What an item adds. -/
def take (s : CommandLineOption) (item : Item) : CommandLineOption :=
  { s.pushAll item.params with leftArgs := s.leftArgs ++ item.lefts }

variable {s : CommandLineOption} {opt name value arg : Bytes} {args : List Bytes}

@[simp] theorem optionTypes_pushParam (s : CommandLineOption) (opt value : Bytes) :
    (s.pushParam opt value).optionTypes = s.optionTypes := rfl

@[simp] theorem leftArgs_pushParam (s : CommandLineOption) (opt value : Bytes) :
    (s.pushParam opt value).leftArgs = s.leftArgs := rfl

theorem getParameters_pushParam (s : CommandLineOption) (opt name value : Bytes) :
    (s.pushParam name value).getParameters opt =
      s.getParameters opt ++ if name = opt then [value] else [] := by
  show (Function.update s.optionParams name _ opt).getD [] = (s.optionParams opt).getD [] ++ _
  by_cases heq : name = opt
  · rw [if_pos heq, heq, Function.update_self, Option.getD_some]
  · rw [if_neg heq, Function.update_of_ne (Ne.symm heq), List.append_nil]

theorem pushAll_append (s : CommandLineOption) (ps qs : List (Bytes × Bytes)) :
    s.pushAll (ps ++ qs) = (s.pushAll ps).pushAll qs := List.foldl_append

@[simp] theorem optionTypes_pushAll (s : CommandLineOption) (ps : List (Bytes × Bytes)) :
    (s.pushAll ps).optionTypes = s.optionTypes := by
  induction ps generalizing s with
  | nil => rfl
  | cons p ps ih => exact ih (s.pushParam p.1 p.2)

@[simp] theorem leftArgs_pushAll (s : CommandLineOption) (ps : List (Bytes × Bytes)) :
    (s.pushAll ps).leftArgs = s.leftArgs := by
  induction ps generalizing s with
  | nil => rfl
  | cons p ps ih => exact ih (s.pushParam p.1 p.2)

theorem getParameters_pushAll (s : CommandLineOption) (opt : Bytes) (ps : List (Bytes × Bytes)) :
    (s.pushAll ps).getParameters opt = s.getParameters opt ++ values opt ps := by
  induction ps generalizing s with
  | nil => exact (List.append_nil _).symm
  | cons p ps ih =>
    rw [show s.pushAll (p :: ps) = (s.pushParam p.1 p.2).pushAll ps from rfl, ih,
      getParameters_pushParam, List.append_assoc, values, values, List.filter_cons]
    by_cases heq : p.1 = opt
    · simp [heq]
    · simp [heq]

/-! ## One option -/

/-- A name without `=` is one part, and a value behind the first `=` is the other. -/
theorem splitCStr_name (hne : (61 : UInt8) ∉ name) (hnul : (0 : UInt8) ∉ name) :
    splitCStr name (bytes "=") 2 = [name] := by
  rw [splitCStr_eq (by decide) hnul (by decide)]
  exact (split_parts (by decide) name 2).unique (.last (FirstInfix.eq_none hne))

theorem splitCStr_assigned (hne : (61 : UInt8) ∉ name)
    (hnul : (0 : UInt8) ∉ name ++ bytes "=" ++ value) :
    splitCStr (name ++ bytes "=" ++ value) (bytes "=") 2 = [name, value] := by
  rw [splitCStr_eq (by decide) hnul (by decide)]
  exact (split_parts (by decide) _ 2).unique
    (.cut (by decide) (FirstInfix.append_self hne value) .stop)

theorem processShortLoop_flags (next flags arg : Bytes)
    (h : ∀ c ∈ flags, s.optionTypes [c] = some .none) :
    processShortLoop next (flags ++ arg) s =
      processShortLoop next arg (s.pushAll (flags.map fun c => ([c], []))) := by
  induction flags generalizing s with
  | nil => rfl
  | cons c flags ih =>
    rw [List.cons_append, processShortLoop, h c (by simp)]
    exact ih fun d hd => h d (by simp [hd])

theorem parseLoop_long (hne : name ≠ []) (args : List Bytes) :
    parseLoop ((bytes "--" ++ name) :: args) s =
      if (s.processLongOption (bytes "--" ++ name) (args.headD [])).1 = -1 then
        (false, (s.processLongOption (bytes "--" ++ name) (args.headD [])).2)
      else
        parseLoop
          (args.drop ((s.processLongOption (bytes "--" ++ name) (args.headD [])).1.toNat - 1))
          (s.processLongOption (bytes "--" ++ name) (args.headD [])).2 := by
  obtain ⟨c, name, rfl⟩ := List.exists_cons_of_ne_nil hne
  have hdashes : bytes "--" ++ c :: name ≠ bytes "--" := fun h => by
    have := congrArg List.length h
    simp [bytes] at this
  rw [parseLoop, if_neg hdashes]
  have hoption : isOption (bytes "--" ++ c :: name) = true := rfl
  have hlong : isLongOption (bytes "--" ++ c :: name) = true := rfl
  rw [hoption, hlong]
  rfl

theorem parseLoop_short (harg : ∃ c rest, arg = c :: rest ∧ c ≠ 45) (args : List Bytes) :
    parseLoop ((45 :: arg) :: args) s =
      if (processShortLoop (args.headD []) arg s).1 = -1 then
        (false, (processShortLoop (args.headD []) arg s).2)
      else
        parseLoop (args.drop ((processShortLoop (args.headD []) arg s).1.toNat - 1))
          (processShortLoop (args.headD []) arg s).2 := by
  obtain ⟨c, rest, rfl, hc⟩ := harg
  have hdashes : 45 :: c :: rest ≠ bytes "--" := fun h => hc (List.cons.inj (List.cons.inj h).2).1
  rw [parseLoop, if_neg hdashes]
  have hoption : isOption (45 :: c :: rest) = true := rfl
  have hshort : isLongOption (45 :: c :: rest) = false := by
    simp [isLongOption, hc]
  rw [hoption, hshort]
  rfl

theorem parseLoop_left (h : arg = [] ∨ arg = [45] ∨ arg.head? ≠ some 45) (args : List Bytes) :
    parseLoop (arg :: args) s = parseLoop args { s with leftArgs := s.leftArgs ++ [arg] } := by
  have hoption : isOption arg = false := by
    rcases h with rfl | rfl | h
    · rfl
    · rfl
    · cases arg with
      | nil => rfl
      | cons c arg =>
        have hc : c ≠ 45 := fun heq => h (congrArg some heq)
        simp [isOption, hc]
  have hdashes : arg ≠ bytes "--" := by
    rintro rfl
    cases hoption
  rw [parseLoop, if_neg hdashes, if_pos hoption]

/-! ## One item -/

theorem exists_cons_cluster {flags rest : Bytes} {opt : UInt8}
    (hflags : ∀ c ∈ flags, Item.ShortOption s.optionTypes c .none) (hopt : opt ≠ 45) :
    ∃ c rest', flags ++ opt :: rest = c :: rest' ∧ c ≠ 45 := by
  cases flags with
  | nil => exact ⟨opt, rest, rfl, hopt⟩
  | cons c flags => exact ⟨c, flags ++ opt :: rest, rfl, (hflags c (by simp)).1⟩

theorem take_option {item : Item} (h : item.lefts = []) : s.take item = s.pushAll item.params := by
  rw [take, h, List.append_nil, ← leftArgs_pushAll s item.params]

/-- An item is read as it is written, whatever follows it. -/
theorem parseLoop_render {item : Item} (hwf : item.WellFormed s.optionTypes)
    (hvalue : item.separate? ≠ some []) (args : List Bytes) :
    parseLoop (item.render ++ args) s = parseLoop args (s.take item) := by
  obtain ⟨hnul, hwf⟩ := hwf
  cases item with
  | flag name =>
    obtain ⟨hne, heq, htype⟩ := hwf
    have hparts : splitCStr ((bytes "--" ++ name).drop 2) (bytes "=") 2 = [name] :=
      splitCStr_name heq fun h => hnul _ (.head _) (List.mem_append_right _ h)
    have hprocess : s.processLongOption (bytes "--" ++ name) (args.headD []) =
        (1, s.pushParam name []) := by
      simp only [processLongOption, hparts, List.getD_cons_zero, htype]
      rfl
    rw [Item.render, List.cons_append, List.nil_append, parseLoop_long hne, hprocess,
      take_option rfl]
    rfl
  | assigned name value =>
    obtain ⟨hne, heq, htype⟩ := hwf
    have hparts : splitCStr ((bytes "--" ++ (name ++ bytes "=" ++ value)).drop 2) (bytes "=") 2 =
        [name, value] :=
      splitCStr_assigned heq fun h => hnul _ (.head _) (List.mem_append_right _ h)
    have hprocess : s.processLongOption (bytes "--" ++ (name ++ bytes "=" ++ value))
        (args.headD []) = (1, s.pushParam name value) := by
      simp only [processLongOption, hparts, List.getD_cons_zero, htype]
      rfl
    rw [Item.render, List.cons_append, List.nil_append, parseLoop_long (by simp [hne]), hprocess,
      take_option rfl]
    rfl
  | following name value =>
    obtain ⟨hne, heq, htype⟩ := hwf
    have hvalue' : value ≠ [] := fun h => hvalue (congrArg some h)
    have hparts : splitCStr ((bytes "--" ++ name).drop 2) (bytes "=") 2 = [name] :=
      splitCStr_name heq fun h => hnul _ (.head _) (List.mem_append_right _ h)
    have hprocess : s.processLongOption (bytes "--" ++ name) value =
        (2, s.pushParam name value) := by
      simp only [processLongOption, hparts, List.getD_cons_zero, htype, if_neg hvalue']
      rfl
    rw [Item.render, List.cons_append, List.cons_append, List.nil_append, parseLoop_long hne]
    simp only [List.headD_cons, hprocess]
    rw [take_option rfl]
    rfl
  | cluster flags =>
    obtain ⟨hne, hflags⟩ := hwf
    obtain ⟨c, flags, rfl⟩ := List.exists_cons_of_ne_nil hne
    have hprocess := processShortLoop_flags (args.headD []) (c :: flags) []
      fun d hd => (hflags d hd).2
    rw [List.append_nil] at hprocess
    rw [Item.render, List.cons_append, List.nil_append,
      parseLoop_short ⟨c, flags, rfl, (hflags c (by simp)).1⟩, hprocess, take_option rfl]
    rfl
  | clusterAttached flags opt value =>
    obtain ⟨hflags, ⟨hopt, htype⟩, hne⟩ := hwf
    have hprocess : processShortLoop (args.headD []) (flags ++ opt :: value) s =
        (1, (s.pushAll (flags.map fun c => ([c], []))).pushParam [opt] value) := by
      rw [processShortLoop_flags _ _ _ fun d hd => (hflags d hd).2, processShortLoop,
        optionTypes_pushAll, htype]
      exact if_pos hne
    rw [Item.render, List.cons_append, List.nil_append,
      parseLoop_short (exists_cons_cluster hflags hopt), hprocess, take_option rfl, Item.params,
      pushAll_append]
    rfl
  | clusterFollowing flags opt value =>
    obtain ⟨hflags, hopt, htype⟩ := hwf
    have hvalue' : value ≠ [] := fun h => hvalue (congrArg some h)
    have hprocess : processShortLoop value (flags ++ [opt]) s =
        (2, (s.pushAll (flags.map fun c => ([c], []))).pushParam [opt] value) := by
      rw [processShortLoop_flags _ _ _ fun d hd => (hflags d hd).2, processShortLoop,
        optionTypes_pushAll, htype]
      exact if_neg hvalue'
    rw [Item.render, List.cons_append, List.cons_append, List.nil_append,
      parseLoop_short (exists_cons_cluster hflags hopt)]
    simp only [List.headD_cons, hprocess]
    rw [take_option rfl, Item.params, pushAll_append]
    rfl
  | left arg =>
    rw [Item.render, List.cons_append, List.nil_append, parseLoop_left hwf]
    rfl

/-- A value of its own that is empty is taken for none. -/
theorem parseLoop_empty {item : Item} (hwf : item.WellFormed s.optionTypes)
    (hvalue : item.separate? = some []) (args : List Bytes) :
    (parseLoop (item.render ++ args) s).1 = false := by
  obtain ⟨hnul, hwf⟩ := hwf
  cases item with
  | following name value =>
    obtain ⟨hne, heq, htype⟩ := hwf
    have hvalue' : value = [] := Option.some.inj hvalue
    have hparts : splitCStr ((bytes "--" ++ name).drop 2) (bytes "=") 2 = [name] :=
      splitCStr_name heq fun h => hnul _ (.head _) (List.mem_append_right _ h)
    have hprocess : s.processLongOption (bytes "--" ++ name) value = (-1, s) := by
      simp only [processLongOption, hparts, List.getD_cons_zero, htype, if_pos hvalue']
      rfl
    rw [Item.render, List.cons_append, List.cons_append, List.nil_append, parseLoop_long hne]
    simp only [List.headD_cons, hprocess]
    rfl
  | clusterFollowing flags opt value =>
    obtain ⟨hflags, hopt, htype⟩ := hwf
    have hvalue' : value = [] := Option.some.inj hvalue
    have hprocess : processShortLoop value (flags ++ [opt]) s =
        (-1, s.pushAll (flags.map fun c => ([c], []))) := by
      rw [processShortLoop_flags _ _ _ fun d hd => (hflags d hd).2, processShortLoop,
        optionTypes_pushAll, htype]
      exact if_pos hvalue'
    rw [Item.render, List.cons_append, List.cons_append, List.nil_append,
      parseLoop_short (exists_cons_cluster hflags hopt)]
    simp only [List.headD_cons, hprocess]
    rfl
  | flag => cases hvalue
  | assigned => cases hvalue
  | cluster => cases hvalue
  | clusterAttached => cases hvalue
  | left => cases hvalue

/-! ## The command line -/

theorem parseLoop_renderTail (s : CommandLineOption) (tail : Option (List Bytes)) :
    parseLoop (renderTail tail) s = (true, { s with leftArgs := s.leftArgs ++ tail.getD [] }) := by
  cases tail with
  | none =>
    rw [renderTail, parseLoop, Option.getD_none, List.append_nil]
  | some args =>
    rw [renderTail, parseLoop, if_pos rfl]
    rfl

theorem values_append (opt : Bytes) (ps qs : List (Bytes × Bytes)) :
    values opt (ps ++ qs) = values opt ps ++ values opt qs := by
  rw [values, List.filter_append, List.map_append]
  rfl

/-- What the items of a command line add. -/
theorem parseLoop_items {items : List Item} (tail : Option (List Bytes))
    (hwf : ∀ item ∈ items, item.WellFormed s.optionTypes)
    (hvalue : ∀ item ∈ items, item.separate? ≠ some []) :
    ∃ s', parseLoop (items.flatMap Item.render ++ renderTail tail) s = (true, s') ∧
      (∀ opt, s'.getParameters opt =
        s.getParameters opt ++ values opt (items.flatMap Item.params)) ∧
      s'.leftArgs = s.leftArgs ++ (items.flatMap Item.lefts ++ tail.getD []) := by
  induction items generalizing s with
  | nil => exact ⟨_, parseLoop_renderTail s tail, fun _ => (List.append_nil _).symm, rfl⟩
  | cons item items ih =>
    have htypes : (s.take item).optionTypes = s.optionTypes := optionTypes_pushAll s item.params
    obtain ⟨s', hparse, hparams, hleft⟩ := ih (fun i hi => htypes ▸ hwf i (by simp [hi]))
      fun i hi => hvalue i (by simp [hi])
    refine ⟨s', ?_, fun opt => ?_, ?_⟩
    · rw [List.flatMap_cons, List.append_assoc,
        parseLoop_render (hwf item (by simp)) (hvalue item (by simp)), hparse]
    · have htake : (s.take item).getParameters opt = s.getParameters opt ++ values opt item.params :=
        getParameters_pushAll s opt item.params
      rw [hparams, htake, List.flatMap_cons, values_append, List.append_assoc]
    · rw [hleft, List.flatMap_cons, take, List.append_assoc, List.append_assoc]

theorem parseLoop_items_empty {items : List Item} (rest : List Bytes)
    (hwf : ∀ item ∈ items, item.WellFormed s.optionTypes)
    (hvalue : ∃ item ∈ items, item.separate? = some []) :
    (parseLoop (items.flatMap Item.render ++ rest) s).1 = false := by
  induction items generalizing s with
  | nil => simp at hvalue
  | cons item items ih =>
    have htypes : (s.take item).optionTypes = s.optionTypes := optionTypes_pushAll s item.params
    rw [List.flatMap_cons, List.append_assoc]
    by_cases hempty : item.separate? = some []
    · exact parseLoop_empty (hwf item (by simp)) hempty _
    · rw [parseLoop_render (hwf item (by simp)) hempty]
      refine ih (fun i hi => htypes ▸ hwf i (by simp [hi])) ?_
      obtain ⟨i, hi, hsep⟩ := hvalue
      rcases List.mem_cons.mp hi with rfl | hi
      · exact absurd hsep hempty
      · exact ⟨i, hi, hsep⟩

/-! ## The options that are declared -/

theorem optionTypes_declare (options : List (Bytes × ParameterType)) (name : Bytes) :
    (declare options).optionTypes name = options.lookup name := by
  have hfold : ∀ s : CommandLineOption,
      (options.foldl (fun s o => s.addOption o.1 o.2) s).optionTypes name =
        (s.optionTypes name).or (options.lookup name) := by
    induction options with
    | nil => exact fun s => (Option.or_none ..).symm
    | cons o options ih =>
      intro s
      rw [List.foldl_cons, ih]
      show (Function.update s.optionTypes o.1 _ name).or _ = _
      by_cases heq : name = o.1
      · subst heq
        rw [Function.update_self, Option.some_or, List.lookup_cons_self]
        cases s.optionTypes o.1 <;> rfl
      · rw [Function.update_of_ne heq, List.lookup_cons, beq_false_of_ne heq]
  exact hfold empty

theorem getParameters_declare (options : List (Bytes × ParameterType)) (opt : Bytes) :
    (declare options).getParameters opt = [] ∧ (declare options).leftArgs = [] := by
  have hfold : ∀ s : CommandLineOption, s.getParameters opt = [] → s.leftArgs = [] →
      (options.foldl (fun s o => s.addOption o.1 o.2) s).getParameters opt = [] ∧
        (options.foldl (fun s o => s.addOption o.1 o.2) s).leftArgs = [] := by
    induction options with
    | nil => exact fun s hparams hleft => ⟨hparams, hleft⟩
    | cons o options ih =>
      intro s hparams hleft
      refine ih (s.addOption o.1 o.2) ?_ hleft
      show (Function.update s.optionParams o.1 _ opt).getD [] = []
      by_cases heq : opt = o.1
      · subst heq
        rw [Function.update_self]
        exact hparams
      · rw [Function.update_of_ne heq]
        exact hparams
  exact hfold empty rfl rfl

/-- What is asked of `parse` on the rendered items: it is true, every option has its
values and the left arguments are what they are, in order. -/
def Parsed (items : List Item) (tail : Option (List Bytes)) (r : Bool × CommandLineOption) : Prop :=
  r.1 = true ∧ (∀ opt, r.2.getParameters opt = values opt (items.flatMap Item.params)) ∧
    r.2.leftArgs = items.flatMap Item.lefts ++ tail.getD []

/-- A command line is read as it is written exactly if no value of its own is empty. -/
theorem parsed_iff {options : List (Bytes × ParameterType)} {items : List Item}
    (hwf : ∀ item ∈ items, item.WellFormed fun name => options.lookup name) (program : Bytes)
    (tail : Option (List Bytes)) :
    Parsed items tail
        ((declare options).parse (program :: (items.flatMap Item.render ++ renderTail tail))) ↔
      ∀ item ∈ items, item.separate? ≠ some [] := by
  have htypes : (declare options).optionTypes = fun name => options.lookup name :=
    funext (optionTypes_declare options)
  rw [← htypes] at hwf
  constructor
  · rintro ⟨htrue, -, -⟩ item hmem hempty
    have hfalse := parseLoop_items_empty (renderTail tail) hwf ⟨item, hmem, hempty⟩
    exact absurd (htrue.symm.trans hfalse) (by decide)
  · intro hvalue
    obtain ⟨s, hparse, hparams, hleft⟩ := parseLoop_items tail hwf hvalue
    rw [parse, List.drop_one, List.tail_cons, hparse]
    refine ⟨rfl, fun opt => ?_, ?_⟩
    · show s.getParameters opt = _
      rw [hparams, (getParameters_declare options opt).1, List.nil_append]
    · show s.leftArgs = _
      rw [hleft, (getParameters_declare options []).2, List.nil_append]

/-- `-vo -1 --out= - -- --x`, with a flag `v` and options `o` and `out` -/
theorem parsed_sample :
    Parsed [.clusterFollowing [118] 111 (bytes "-1"), .assigned (bytes "out") [], .left [45]]
        (some [bytes "--x"])
        ((declare [([118], .none), ([111], .required), (bytes "out", .required)]).parse
          (bytes "a.out" :: ([Item.clusterFollowing [118] 111 (bytes "-1"),
            .assigned (bytes "out") [], .left [45]].flatMap Item.render ++
              renderTail (some [bytes "--x"])))) ↔
      ∀ item ∈ [Item.clusterFollowing [118] 111 (bytes "-1"), .assigned (bytes "out") [],
        .left [45]], item.separate? ≠ some [] :=
  parsed_iff (fun item hmem => by
    simp only [List.mem_cons, List.not_mem_nil, or_false] at hmem
    obtain rfl | rfl | rfl := hmem
    · refine ⟨by decide +kernel, fun c hc => ?_, by decide, rfl⟩
      obtain rfl := List.mem_singleton.mp hc
      exact ⟨by decide, rfl⟩
    · exact ⟨by decide +kernel, by decide, by decide, rfl⟩
    · exact ⟨by decide +kernel, .inr (.inl rfl)⟩) (bytes "a.out") (some [bytes "--x"])

/-- `--name ""` -/
theorem not_parsed_empty :
    (∀ item ∈ [Item.following (bytes "name") []],
        item.WellFormed fun name => List.lookup name [(bytes "name", .required)]) ∧
      ¬ Parsed [.following (bytes "name") []] none
        ((declare [(bytes "name", .required)]).parse
          (bytes "a.out" :: ([Item.following (bytes "name") []].flatMap Item.render ++
            renderTail none))) := by
  have hwf : ∀ item ∈ [Item.following (bytes "name") []],
      item.WellFormed fun name => List.lookup name [(bytes "name", .required)] := by
    intro item hmem
    obtain rfl := List.mem_singleton.mp hmem
    exact ⟨by decide +kernel, by decide, by decide, rfl⟩
  have htypes : (declare [(bytes "name", .required)]).optionTypes =
      fun name => List.lookup name [(bytes "name", .required)] :=
    funext (optionTypes_declare _)
  refine ⟨hwf, fun h => ?_⟩
  have hfalse := parseLoop_items_empty (renderTail none) (htypes ▸ hwf)
    ⟨_, List.mem_singleton.mpr rfl, rfl⟩
  exact absurd (h.1.symm.trans hfalse) (by decide)

end CommandLineOption

end Brickred
