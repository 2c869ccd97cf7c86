import EffectLang.CommandLine
import Mathlib

/-!
Command lines that are put together from options and one input file. Each option reads its own arguments and sets its
own part of the request, so what the parts hold at the end is decided option by option, and neither the order of
different options nor the place of the input matters.
-/
namespace EffectLang

def Glsl.Version.number : Glsl.Version → String
  | .core330 => "330"
  | .v430 => "430"
  | .v450 => "450"
  | .v460 => "460"

theorem Glsl.Version.ofNumber?_number (version : Glsl.Version) : ofNumber? version.number = some version := by
  cases version <;> rfl

namespace CommandLine

inductive Choice where
  | out
  | bin
  | glsl
  | strict
  | constants
  | dump
deriving DecidableEq, Repr

/-- An option with its value, if it takes one. The output directory has a short and a long name. Values may be any
texts, also such that look like options. -/
inductive OptionGroup where
  | out (long : Bool) (directory : String)
  | bin (path : String)
  | glsl (version : Glsl.Version)
  | strict
  | constants
  | dump
deriving DecidableEq, Repr

namespace OptionGroup

def words : OptionGroup → List String
  | .out long directory => [if long then "--out" else "-o", directory]
  | .bin path => ["--bin", path]
  | .glsl version => ["--glsl", version.number]
  | .strict => ["--strict"]
  | .constants => ["--constants"]
  | .dump => ["--dump"]

def choice : OptionGroup → Choice
  | .out _ _ => .out
  | .bin _ => .bin
  | .glsl _ => .glsl
  | .strict => .strict
  | .constants => .constants
  | .dump => .dump

def directory? : OptionGroup → Option String
  | .out _ directory => some directory
  | _ => none

def path? : OptionGroup → Option String
  | .bin path => some path
  | _ => none

def version? : OptionGroup → Option Glsl.Version
  | .glsl version => some version
  | _ => none

def apply (arguments : Arguments) : OptionGroup → Arguments
  | .out _ directory => { arguments with options := { arguments.options with outputDir := directory } }
  | .bin path => { arguments with options := { arguments.options with binaryPath := some path } }
  | .glsl version => { arguments with options := { arguments.options with version } }
  | .strict => { arguments with options := { arguments.options with strict := true } }
  | .constants => { arguments with options := { arguments.options with constants := true } }
  | .dump => { arguments with dump := true }

end OptionGroup

theorem parseFrom_words (arguments : Arguments) (group : OptionGroup) (rest : List String) :
    parseFrom arguments (group.words ++ rest) = parseFrom (group.apply arguments) rest := by
  cases group with
  | out long directory => cases long <;> simp [OptionGroup.words, parseFrom, OptionGroup.apply]
  | bin path => simp [OptionGroup.words, parseFrom, OptionGroup.apply]
  | glsl version => simp [OptionGroup.words, parseFrom, OptionGroup.apply, Glsl.Version.ofNumber?_number]
  | strict => simp [OptionGroup.words, parseFrom, OptionGroup.apply]
  | constants => simp [OptionGroup.words, parseFrom, OptionGroup.apply]
  | dump => simp [OptionGroup.words, parseFrom, OptionGroup.apply]

theorem parseFrom_flatMap (arguments : Arguments) (groups : List OptionGroup) (rest : List String) :
    parseFrom arguments (groups.flatMap OptionGroup.words ++ rest) =
      parseFrom (groups.foldl OptionGroup.apply arguments) rest := by
  induction groups generalizing arguments with
  | nil => rfl
  | cons group groups ih =>
    rw [List.flatMap_cons, List.append_assoc, parseFrom_words, ih, List.foldl_cons]

theorem parseFrom_input {arguments : Arguments} (fresh : arguments.input = none) {input : String}
    (positional : input.toList.head? ≠ some '-') (rest : List String) :
    parseFrom arguments (input :: rest) = parseFrom { arguments with input := some input } rest := by
  rw [parseFrom]
  · rw [if_neg positional, fresh]
  -- What is left are the names of the options, each with a dash in front.
  all_goals
    rintro rfl
    exact positional (by decide)

theorem foldl_input (groups : List OptionGroup) (arguments : Arguments) (input : Option String) :
    groups.foldl OptionGroup.apply { arguments with input } =
      { groups.foldl OptionGroup.apply arguments with input } := by
  induction groups generalizing arguments with
  | nil => rfl
  | cons group groups ih =>
    have first : group.apply { arguments with input } = { group.apply arguments with input } := by
      cases group <;> rfl
    rw [List.foldl_cons, List.foldl_cons, first, ih]

/-- A command line: options, the input file, and more options. -/
def line (before : List OptionGroup) (input : String) (after : List OptionGroup) : List String :=
  before.flatMap OptionGroup.words ++ input :: after.flatMap OptionGroup.words

theorem parseFrom_line (before after : List OptionGroup) {input : String} (positional : input.toList.head? ≠ some '-') :
    parseFrom {} (line before input after) =
      .ok { (before ++ after).foldl OptionGroup.apply {} with input := some input } := by
  have fresh : (before.foldl OptionGroup.apply {}).input = none :=
    congrArg Arguments.input (foldl_input before {} none)
  have rest := parseFrom_flatMap { before.foldl OptionGroup.apply {} with input := some input } after []
  rw [List.append_nil, foldl_input, ← List.foldl_append] at rest
  rw [line, parseFrom_flatMap, parseFrom_input fresh positional, rest, parseFrom]

/-- What options come to: the last value of each that takes one, or its default, and the flags that are among them. -/
def settings (groups : List OptionGroup) : Arguments where
  options :=
    { outputDir := (groups.filterMap OptionGroup.directory?).getLast?.getD "."
      binaryPath := (groups.filterMap OptionGroup.path?).getLast?
      version := (groups.filterMap OptionGroup.version?).getLast?.getD .core330
      strict := decide (.strict ∈ groups)
      constants := decide (.constants ∈ groups)
      capacity := {} }
  dump := decide (.dump ∈ groups)

theorem settings_concat (groups : List OptionGroup) (group : OptionGroup) :
    settings (groups ++ [group]) = group.apply (settings groups) := by
  cases group <;>
    simp [settings, OptionGroup.apply, OptionGroup.directory?, OptionGroup.path?, OptionGroup.version?]

theorem foldl_apply (groups : List OptionGroup) : groups.foldl OptionGroup.apply {} = settings groups := by
  induction groups using List.reverseRecOn with
  | nil => rfl
  | append_singleton groups group ih => rw [List.foldl_append, ih, List.foldl_cons, List.foldl_nil, settings_concat]

/-- Two lists of options agree on each choice: what they say about it is the same, in the same order. -/
def Agree (groups others : List OptionGroup) : Prop :=
  ∀ choice, groups.filter (fun group => group.choice = choice) = others.filter fun group => group.choice = choice

theorem agree_swap (left right : List OptionGroup) {first second : OptionGroup}
    (differ : first.choice ≠ second.choice) :
    Agree (left ++ first :: second :: right) (left ++ second :: first :: right) := by
  intro choice
  have apart : ¬(first.choice = choice ∧ second.choice = choice) := by
    rintro ⟨rfl, same⟩
    exact differ same.symm
  by_cases own : first.choice = choice
  · have other : second.choice ≠ choice := fun same => apart ⟨own, same⟩
    simp [own, other]
  · simp [List.filter_cons, own]

theorem Agree.filterMap_eq {groups others : List OptionGroup} (agree : Agree groups others) {β : Type}
    {given? : OptionGroup → Option β} (choice : Choice)
    (own : ∀ group, group.choice ≠ choice → given? group = none) :
    groups.filterMap given? = others.filterMap given? := by
  -- The options of other choices give nothing, so they can be left out.
  have taken (groups : List OptionGroup) :
      groups.filterMap given? = (groups.filter fun group => group.choice = choice).filterMap given? := by
    rw [List.filterMap_filter]
    apply List.filterMap_congr
    intro group _
    split
    · rfl
    · rename_i other
      exact own group (by simpa using other)
  rw [taken groups, taken others, agree choice]

theorem Agree.mem_iff {groups others : List OptionGroup} (agree : Agree groups others) (group : OptionGroup) :
    group ∈ groups ↔ group ∈ others := by
  have kept (groups : List OptionGroup) :
      group ∈ groups ↔ group ∈ groups.filter fun other => other.choice = group.choice := by
    simp
  rw [kept groups, kept others, agree]

theorem Agree.settings_eq {groups others : List OptionGroup} (agree : Agree groups others) :
    settings groups = settings others := by
  have directory : groups.filterMap OptionGroup.directory? = others.filterMap OptionGroup.directory? :=
    agree.filterMap_eq .out fun group => by cases group <;> simp [OptionGroup.choice, OptionGroup.directory?]
  have path : groups.filterMap OptionGroup.path? = others.filterMap OptionGroup.path? :=
    agree.filterMap_eq .bin fun group => by cases group <;> simp [OptionGroup.choice, OptionGroup.path?]
  have version : groups.filterMap OptionGroup.version? = others.filterMap OptionGroup.version? :=
    agree.filterMap_eq .glsl fun group => by cases group <;> simp [OptionGroup.choice, OptionGroup.version?]
  simp only [settings, directory, path, version, agree.mem_iff]

/-- Every command line that consists of options, in any order, and of one input file among them, which does not begin
with a dash. It is accepted. Each option that takes a value has the last value that is given for it, or its default, and
each flag is set exactly if it is given. So another order of the options, or another place for the input, asks for the
same as long as the options agree choice by choice. -/
theorem parse_line (before after : List OptionGroup) (input : String) (positional : input.toList.head? ≠ some '-') :
    let groups := before ++ after
    parse (line before input after) =
      .ok { input
            options :=
              { outputDir := (groups.filterMap OptionGroup.directory?).getLast?.getD "."
                binaryPath := (groups.filterMap OptionGroup.path?).getLast?
                version := (groups.filterMap OptionGroup.version?).getLast?.getD .core330
                strict := decide (.strict ∈ groups)
                constants := decide (.constants ∈ groups)
                capacity := {} }
            dump := decide (.dump ∈ groups) } ∧
      ∀ earlier later, Agree groups (earlier ++ later) →
        parse (line earlier input later) = parse (line before input after) := by
  intro groups
  have parsed (before after : List OptionGroup) : parse (line before input after) =
      .ok ⟨input, (settings (before ++ after)).options, (settings (before ++ after)).dump⟩ := by
    rw [parse, parseFrom_line before after positional, foldl_apply]
  refine ⟨parsed before after, ?_⟩
  intro earlier later agree
  rw [parsed, parsed, agree.settings_eq]

/-- Values that look like options, a directory that is given twice and is empty at last, and the same options around an
input at the front, two of them in the other order. -/
theorem parse_line_swapped :
    parse ["--bin", "--dump", "-o", "-h", "e.hfx", "--glsl", "450", "--out", "", "--strict"] =
      .ok ⟨"e.hfx", { outputDir := "", binaryPath := some "--dump", version := .v450, strict := true }, false⟩ ∧
    parse ["e.hfx", "--bin", "--dump", "-o", "-h", "--out", "", "--glsl", "450", "--strict"] =
      parse ["--bin", "--dump", "-o", "-h", "e.hfx", "--glsl", "450", "--out", "", "--strict"] := by
  have read := parse_line [.bin "--dump", .out false "-h"] [.glsl .v450, .out true "", .strict] "e.hfx" (by decide)
  refine ⟨read.1, read.2 [] [.bin "--dump", .out false "-h", .out true "", .glsl .v450, .strict] ?_⟩
  exact agree_swap [.bin "--dump", .out false "-h"] [.strict] (by decide)

end CommandLine

end EffectLang
