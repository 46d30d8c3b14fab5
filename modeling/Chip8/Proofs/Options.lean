import Chip8.Options
import Mathlib.Data.List.Induction
import Mathlib.Data.List.Nodup

/-!
# What arguments denote

An argument behind two hyphens denotes a key with a value (`Denotes`), exactly one each; any other
is a positional. Parsing keeps the positionals in their order and gives to a key the value of the
last argument that denotes it (`Last`). So options that are written out as arguments are parsed
back, in whatever order they stand and whatever positionals stand among them
(`get?_parse_of_written`).
-/

namespace Chip8.Arguments

/-! ## The grammar of an argument -/

/-- The characters that end a line. -/
def lineEnds : List Char := ['\n', '\r', '\u2028', '\u2029']

def OneLine (text : String) : Prop := ∀ c ∈ text.toList, c ∉ lineEnds

-- By the characters of the text: there is an instance that tries every character there is.
instance : DecidablePred OneLine := fun text => List.decidableBAll (· ∉ lineEnds) text.toList

/-- A text that is a key and a one-line value with an equals sign between them. -/
structure Named (rest key value : String) : Prop where
  text : rest = key ++ "=" ++ value
  nonempty : key ≠ ""
  free : '=' ∉ key.toList
  line : OneLine value

/-- The argument starts with two hyphens. -/
def Hyphened (arg : String) : Prop := ['-', '-'] <+: arg.toList

instance : DecidablePred Hyphened :=
  fun arg => inferInstanceAs (Decidable (['-', '-'] <+: arg.toList))

/-- The key and the value that an argument denotes. -/
inductive Denotes : String → String → String → Prop
  | named {rest key value : String} (named : Named rest key value) :
    Denotes ("--" ++ rest) key value
  | bare {rest : String} (other : ∀ key value, ¬ Named rest key value) :
      Denotes ("--" ++ rest) rest "1"

theorem not_isLineEnd_iff {c : Char} : (!Text.isLineEnd c) = true ↔ c ∉ lineEnds := by
  have codes : [0x0A, 0x0D, 0x2028, 0x2029] = lineEnds.map Char.toNat := rfl
  rw [Bool.not_eq_true', ← Bool.not_eq_true, Text.isLineEnd, codes, List.contains_iff_mem,
    List.mem_map]
  refine not_congr ⟨?_, fun member => ⟨c, member, rfl⟩⟩
  rintro ⟨c', member, same⟩
  exact Char.toNat_inj.1 same ▸ member

theorem toList_hyphens (rest : String) : ("--" ++ rest).toList = '-' :: '-' :: rest.toList :=
  String.toList_append

theorem hyphened_iff {arg : String} : Hyphened arg ↔ ∃ rest, arg = "--" ++ rest := by
  constructor
  · rintro ⟨rest, text⟩
    refine ⟨String.ofList rest, String.toList_inj.1 ?_⟩
    rw [toList_hyphens, String.toList_ofList, ← text]
    rfl
  · rintro ⟨rest, rfl⟩
    exact ⟨rest.toList, (toList_hyphens rest).symm⟩

/-! ## Reading an argument -/

theorem Named.split {rest key value : String} (named : Named rest key value) :
    rest.toList.takeWhile (· ≠ '=') = key.toList ∧
    rest.toList.dropWhile (· ≠ '=') = '=' :: value.toList := by
  have text : rest.toList = key.toList ++ '=' :: value.toList := by
    rw [named.text, String.toList_append, String.toList_append, List.append_assoc]
    rfl
  have before : ∀ c ∈ key.toList, decide (c ≠ '=') = true := fun c member =>
    decide_eq_true fun same => named.free (same ▸ member)
  rw [text, List.takeWhile_append_of_pos before, List.dropWhile_append_of_pos before]
  simp

theorem named_of_split {rest : String} {c : Char} {value : List Char}
    (tail : rest.toList.dropWhile (· ≠ '=') = c :: value)
    (nonempty : rest.toList.takeWhile (· ≠ '=') ≠ []) (line : value.all (!Text.isLineEnd ·)) :
    Named rest (String.ofList (rest.toList.takeWhile (· ≠ '='))) (String.ofList value) := by
  have equals : c = '=' := by
    have stop := List.head?_dropWhile_not (fun c => decide (c ≠ '=')) rest.toList
    rw [tail] at stop
    simpa using stop
  refine ⟨String.toList_inj.1 ?_, fun empty => nonempty ?_, fun member => ?_, fun d member => ?_⟩
  · calc rest.toList
      _ = rest.toList.takeWhile (· ≠ '=') ++ rest.toList.dropWhile (· ≠ '=') :=
        List.takeWhile_append_dropWhile.symm
      _ = rest.toList.takeWhile (· ≠ '=') ++ (['='] ++ value) := by
        rw [tail, equals, List.singleton_append]
      _ = (String.ofList (rest.toList.takeWhile (· ≠ '=')) ++ "=" ++
          String.ofList value).toList := by
        rw [String.toList_append, String.toList_append, List.append_assoc, String.toList_ofList,
          String.toList_ofList, String.toList_ofList]
  · rw [← String.toList_ofList (l := rest.toList.takeWhile (· ≠ '=')), empty]
    rfl
  · rw [String.toList_ofList] at member
    exact absurd rfl (of_decide_eq_true (List.all_eq_true.1 List.all_takeWhile '=' member))
  · rw [String.toList_ofList] at member
    exact not_isLineEnd_iff.1 (List.all_eq_true.1 line d member)

theorem option?_of_named {rest key value : String} (named : Named rest key value) :
    option? ("--" ++ rest).toList = some (key.toList, value.toList) := by
  obtain ⟨front, tail⟩ := named.split
  have nonempty : key.toList ≠ [] := fun empty => named.nonempty (String.toList_inj.1 empty)
  have line : value.toList.all (!Text.isLineEnd ·) = true :=
    List.all_eq_true.2 fun c member => not_isLineEnd_iff.2 (named.line c member)
  rw [toList_hyphens, option?]
  simp only [front, tail, if_pos (And.intro nonempty line)]

theorem option?_of_bare {rest : String} (other : ∀ key value, ¬ Named rest key value) :
    option? ("--" ++ rest).toList = some (rest.toList, ['1']) := by
  rw [toList_hyphens, option?]
  split
  · rfl
  · next tail => exact if_neg fun both => other _ _ (named_of_split tail both.1 both.2)

theorem option?_of_not_hyphened {arg : String} (positional : ¬ Hyphened arg) :
    option? arg.toList = none := by
  unfold option?
  split
  · next rest text => exact absurd ⟨rest, text.symm⟩ positional
  · rfl

theorem Denotes.option? {arg key value : String} (denotes : Denotes arg key value) :
    option? arg.toList = some (key.toList, value.toList) := by
  cases denotes with
  | named named => exact option?_of_named named
  | bare other => exact option?_of_bare other

/-- An argument denotes one key and one value at most. -/
theorem Denotes.unique {arg key value key' value' : String} (denotes : Denotes arg key value)
    (denotes' : Denotes arg key' value') : key' = key ∧ value' = value := by
  have same := Option.some.inj (denotes.option?.symm.trans denotes'.option?)
  exact ⟨String.toList_inj.1 (congrArg Prod.fst same).symm,
    String.toList_inj.1 (congrArg Prod.snd same).symm⟩

/-- The arguments that denote something are those behind two hyphens. -/
theorem hyphened_iff_exists_denotes {arg : String} :
    Hyphened arg ↔ ∃ key value, Denotes arg key value := by
  rw [hyphened_iff]
  constructor
  · rintro ⟨rest, rfl⟩
    by_cases named : ∃ key value, Named rest key value
    · obtain ⟨key, value, named⟩ := named
      exact ⟨key, value, .named named⟩
    · exact ⟨rest, "1", .bare fun key value this => named ⟨key, value, this⟩⟩
  · rintro ⟨key, value, denotes⟩
    cases denotes with
    | named => exact ⟨_, rfl⟩
    | bare => exact ⟨_, rfl⟩

/-! ## One argument more -/

theorem add_of_denotes (a : Arguments) {arg key value : String} (denotes : Denotes arg key value) :
    a.add arg = if key = Options.reserved then a
      else { a with options := a.options.set key value } := by
  rw [add, denotes.option?]
  simp only [String.ofList_toList]

theorem add_of_not_hyphened (a : Arguments) {arg : String} (positional : ¬ Hyphened arg) :
    a.add arg = { a with positionals := a.positionals ++ [arg] } := by
  rw [add, option?_of_not_hyphened positional]

/-- An argument that denotes a key decides its value. -/
theorem get?_add_of_denotes (a : Arguments) {arg key value : String}
    (denotes : Denotes arg key value) (unreserved : key ≠ Options.reserved) :
    (a.add arg).options.get? key = some value := by
  rw [add_of_denotes a denotes, if_neg unreserved, Options.get?_set, if_pos rfl]

/-- Other arguments leave it alone. -/
theorem get?_add_of_not_denotes (a : Arguments) {arg key : String}
    (other : ∀ value, ¬ Denotes arg key value) :
    (a.add arg).options.get? key = a.options.get? key := by
  by_cases hyphened : Hyphened arg
  · obtain ⟨key', value, denotes⟩ := hyphened_iff_exists_denotes.1 hyphened
    have apart : key ≠ key' := fun same => other value (same ▸ denotes)
    rw [add_of_denotes a denotes]
    split
    · rfl
    · rw [Options.get?_set, if_neg apart]
  · rw [add_of_not_hyphened a hyphened]

theorem positionals_add (a : Arguments) (arg : String) :
    (a.add arg).positionals = a.positionals ++ [arg].filter (¬ Hyphened ·) := by
  by_cases hyphened : Hyphened arg
  · obtain ⟨key, value, denotes⟩ := hyphened_iff_exists_denotes.1 hyphened
    rw [add_of_denotes a denotes, List.filter_singleton]
    split <;> simp [hyphened]
  · rw [add_of_not_hyphened a hyphened, List.filter_singleton]
    simp [hyphened]

/-! ## All arguments -/

theorem parse_concat (args : List String) (arg : String) :
    parse (args ++ [arg]) = (parse args).add arg := by
  rw [parse, parse, List.foldl_append, List.foldl_cons, List.foldl_nil]

theorem positionals_parse (args : List String) :
    (parse args).positionals = args.filter (¬ Hyphened ·) := by
  induction args using List.reverseRecOn with
  | nil => rfl
  | append_singleton args arg ih => rw [parse_concat, positionals_add, ih, List.filter_append]

/-- The last argument that denotes the key gives it the value. -/
def Last (args : List String) (key value : String) : Prop :=
  ∃ before arg after, args = before ++ arg :: after ∧ Denotes arg key value ∧
    ∀ later ∈ after, ∀ value, ¬ Denotes later key value

theorem last_concat_iff {args : List String} {arg key value : String} :
    Last (args ++ [arg]) key value ↔
    Denotes arg key value ∨ (∀ value, ¬ Denotes arg key value) ∧ Last args key value := by
  constructor
  · rintro ⟨before, arg', after, split, gives, none⟩
    rcases List.eq_nil_or_concat' after with rfl | ⟨after, last, rfl⟩
    · obtain ⟨-, same⟩ := List.append_inj' split rfl
      cases same
      exact .inl gives
    · rw [← List.cons_append, ← List.append_assoc] at split
      obtain ⟨earlier, same⟩ := List.append_inj' split rfl
      cases same
      exact .inr ⟨none arg (by simp), before, arg', after, earlier, gives,
        fun later member => none later (by simp [member])⟩
  · rintro (denotes | ⟨other, before, arg', after, rfl, gives, none⟩)
    · exact ⟨args, arg, [], rfl, denotes, fun _ member => nomatch member⟩
    · refine ⟨before, arg', after ++ [arg], by simp, gives, fun later member => ?_⟩
      rcases List.mem_append.1 member with earlier | last
      · exact none later earlier
      · exact List.mem_singleton.1 last ▸ other

theorem get?_parse_iff (args : List String) {key value : String}
    (unreserved : key ≠ Options.reserved) :
    (parse args).options.get? key = some value ↔ Last args key value := by
  induction args using List.reverseRecOn with
  | nil =>
    refine ⟨fun found => ?_, ?_⟩
    · rw [parse, List.foldl_nil, empty, Options.get?_empty] at found
      cases found
    rintro ⟨before, arg, after, split, -⟩
    cases before <;> cases split
  | append_singleton args arg ih =>
    rw [parse_concat, last_concat_iff]
    by_cases denotes : ∃ value, Denotes arg key value
    · obtain ⟨value', denotes⟩ := denotes
      rw [get?_add_of_denotes _ denotes unreserved, Option.some.injEq]
      constructor
      · rintro rfl
        exact .inl denotes
      · rintro (here | ⟨other, -⟩)
        · exact (here.unique denotes).2
        · exact absurd denotes (other value')
    · have other : ∀ value, ¬ Denotes arg key value := fun value this => denotes ⟨value, this⟩
      rw [get?_add_of_not_denotes _ other, ih]
      exact ⟨fun last => .inr ⟨other, last⟩,
        fun either => either.elim (absurd · (other value)) And.right⟩

/-- A key is absent if no argument denotes it. -/
theorem get?_parse_eq_none_iff (args : List String) {key : String}
    (unreserved : key ≠ Options.reserved) :
    (parse args).options.get? key = none ↔ ∀ arg ∈ args, ∀ value, ¬ Denotes arg key value := by
  induction args using List.reverseRecOn with
  | nil => exact ⟨fun _ _ member => (nomatch member), fun _ => Options.get?_empty key⟩
  | append_singleton args arg ih =>
    rw [parse_concat]
    by_cases denotes : ∃ value, Denotes arg key value
    · obtain ⟨value, denotes⟩ := denotes
      rw [get?_add_of_denotes _ denotes unreserved]
      exact ⟨nofun, fun none => absurd denotes (none arg (by simp) value)⟩
    · have other : ∀ value, ¬ Denotes arg key value := fun value this => denotes ⟨value, this⟩
      rw [get?_add_of_not_denotes _ other, ih]
      simp only [List.mem_append, List.mem_singleton, or_imp, forall_and, forall_eq, other,
        not_false_eq_true, implies_true, and_true]

theorem get?_parse_reserved (args : List String) :
    (parse args).options.get? Options.reserved = none := by
  induction args using List.reverseRecOn with
  | nil => exact Options.get?_empty _
  | append_singleton args arg ih =>
    rw [parse_concat]
    by_cases hyphened : Hyphened arg
    · obtain ⟨key, value, denotes⟩ := hyphened_iff_exists_denotes.1 hyphened
      rw [add_of_denotes _ denotes]
      split
      · exact ih
      · next apart => rw [Options.get?_set, if_neg (Ne.symm apart), ih]
    · rw [add_of_not_hyphened _ hyphened, ih]

/-! ## Options written out -/

/-- An option as an argument. -/
def written (entry : String × String) : String := "--" ++ (entry.1 ++ "=" ++ entry.2)

/-- The options can be written as arguments: every name is one that can stand before an equals sign,
and every value is one line. -/
structure Writable (o : Options) : Prop where
  distinct : (o.entries.map Prod.fst).Nodup
  unreserved : ∀ entry ∈ o.entries, entry.1 ≠ Options.reserved
  nonempty : ∀ entry ∈ o.entries, entry.1 ≠ ""
  free : ∀ entry ∈ o.entries, '=' ∉ entry.1.toList
  line : ∀ entry ∈ o.entries, OneLine entry.2

/-- The third list has the items of the first and of the second, each in their order. -/
inductive Interleaved {α : Type} : List α → List α → List α → Prop
  | nil : Interleaved [] [] []
  | left {a : α} {l r all : List α} (rest : Interleaved l r all) : Interleaved (a :: l) r (a :: all)
  | right {a : α} {l r all : List α} (rest : Interleaved l r all) :
      Interleaved l (a :: r) (a :: all)

theorem Interleaved.filter {α : Type} {p : α → Prop} [DecidablePred p] {l r all : List α}
    (among : Interleaved l r all) (yes : ∀ a ∈ l, p a) (no : ∀ a ∈ r, ¬ p a) :
    all.filter p = l ∧ all.filter (¬ p ·) = r := by
  induction among with
  | nil => exact ⟨rfl, rfl⟩
  | left rest ih =>
    obtain ⟨here, yes⟩ := List.forall_mem_cons.1 yes
    obtain ⟨kept, dropped⟩ := ih yes no
    exact ⟨by rw [List.filter_cons_of_pos (by simpa), kept], by
      rw [List.filter_cons_of_neg (by simpa), dropped]⟩
  | right rest ih =>
    obtain ⟨here, no⟩ := List.forall_mem_cons.1 no
    obtain ⟨kept, dropped⟩ := ih yes no
    exact ⟨by rw [List.filter_cons_of_neg (by simpa), kept], by
      rw [List.filter_cons_of_pos (by simpa), dropped]⟩

theorem hyphened_written (entry : String × String) : Hyphened (written entry) :=
  hyphened_iff.2 ⟨_, rfl⟩

section Writable

variable {o : Options} (writable : Writable o)
include writable

theorem denotes_written {entry : String × String} (member : entry ∈ o.entries) :
    Denotes (written entry) entry.1 entry.2 :=
  .named ⟨rfl, writable.nonempty entry member, writable.free entry member,
    writable.line entry member⟩

theorem get?_eq_some_iff {key value : String} :
    o.get? key = some value ↔ (key, value) ∈ o.entries := by
  rw [Options.get?_eq_given?, Options.given?, List.lookup_eq_some_iff]
  constructor
  · rintro ⟨before, after, split, -⟩
    rw [split]
    exact List.mem_append_right _ List.mem_cons_self
  · intro member
    obtain ⟨before, after, split⟩ := List.append_of_mem member
    refine ⟨before, after, split, fun entry earlier => bne_iff_ne.2 fun same => ?_⟩
    have distinct := writable.distinct
    rw [split, List.map_append, List.nodup_append] at distinct
    exact distinct.2.2 _ (List.mem_map_of_mem earlier) _ List.mem_cons_self same.symm

/-- Arguments that hold the options, each written once, give them back. -/
theorem get?_parse_of_written {args : List String}
    (same : (args.filter (Hyphened ·)).Perm (o.entries.map written)) (key : String) :
    (parse args).options.get? key = o.get? key := by
  have entry_of {arg value : String} (member : arg ∈ args) (denotes : Denotes arg key value) :
      (key, value) ∈ o.entries := by
    have hyphened := hyphened_iff_exists_denotes.2 ⟨key, value, denotes⟩
    obtain ⟨entry, listed, rfl⟩ :=
      List.mem_map.1 (same.mem_iff.1 (List.mem_filter.2 ⟨member, decide_eq_true hyphened⟩))
    obtain ⟨rfl, rfl⟩ := (denotes_written writable listed).unique denotes
    exact listed
  by_cases unreserved : key = Options.reserved
  · rw [unreserved, get?_parse_reserved]
    refine (Option.eq_none_iff_forall_ne_some.2 fun value found => ?_).symm
    exact writable.unreserved _ ((get?_eq_some_iff writable).1 found) rfl
  refine Option.ext fun value => ⟨fun found => ?_, fun found => ?_⟩
  · obtain ⟨before, arg, after, rfl, denotes, -⟩ := (get?_parse_iff args unreserved).1 found
    exact (get?_eq_some_iff writable).2 (entry_of (by simp) denotes)
  · have listed := (get?_eq_some_iff writable).1 found
    have member := List.mem_of_mem_filter (same.mem_iff.2 (List.mem_map_of_mem listed))
    cases given : (parse args).options.get? key with
    | none =>
      exact absurd (denotes_written writable listed)
        ((get?_parse_eq_none_iff args unreserved).1 given _ member value)
    | some value' =>
      obtain ⟨before, arg, after, rfl, denotes, -⟩ := (get?_parse_iff args unreserved).1 given
      rw [← found]
      exact ((get?_eq_some_iff writable).2 (entry_of (by simp) denotes)).symm

end Writable

/-- Every argument is a positional or denotes one key with one value. The positionals are kept in
order, and a key that is not reserved is given the value of the last argument that denotes it. A key
that has been given none, as the reserved one always is, is absent if it is none of the built-in
names. Options that are written as arguments in any order among any positionals are parsed back. -/
theorem parse_sorts (args : List String) :
    (parse args).positionals = args.filter (¬ Hyphened ·) ∧
    (∀ arg, Hyphened arg ↔ ∃ key value, Denotes arg key value) ∧
    (∀ arg key value key' value', Denotes arg key value → Denotes arg key' value' →
      key' = key ∧ value' = value) ∧
    (∀ key, key ≠ Options.reserved →
      (∀ value, (parse args).options.read key = .text value ↔ Last args key value) ∧
      ((parse args).options.given? key = none ↔ ∀ arg ∈ args, ∀ value, ¬ Denotes arg key value)) ∧
    (∀ key, (key = Options.reserved ∨ ∀ arg ∈ args, ∀ value, ¬ Denotes arg key value) →
      (parse args).options.read key = if key ∈ Options.builtIns then .builtIn else .absent) ∧
    ∀ o : Options, Writable o → ∀ entries : List (String × String), entries.Perm o.entries →
      ∀ positionals : List String, (∀ arg ∈ positionals, ¬ Hyphened arg) →
        ∀ all, Interleaved (entries.map written) positionals all →
          (∀ key, (parse all).options.given? key = o.given? key ∧
            (parse all).options.read key = o.read key) ∧
          (parse all).positionals = positionals := by
  refine ⟨positionals_parse args, fun _ => hyphened_iff_exists_denotes,
    fun _ _ _ _ _ => Denotes.unique, fun key unreserved => ⟨fun _ => ?_, ?_⟩, fun key none => ?_,
    ?_⟩
  · rw [Options.read_eq_text_iff, get?_parse_iff args unreserved]
  · rw [← Options.get?_eq_given?, get?_parse_eq_none_iff args unreserved]
  · refine Options.read_of_get?_eq_none ?_
    by_cases unreserved : key = Options.reserved
    · rw [unreserved, get?_parse_reserved]
    · exact (get?_parse_eq_none_iff args unreserved).2 (none.resolve_left unreserved)
  intro o writable entries order positionals plain all among
  have hyphened : ∀ arg ∈ entries.map written, Hyphened arg := by
    intro arg member
    obtain ⟨entry, -, rfl⟩ := List.mem_map.1 member
    exact hyphened_written entry
  obtain ⟨options, rest⟩ := among.filter hyphened plain
  have same := get?_parse_of_written writable (options ▸ order.map written)
  refine ⟨fun key => ⟨?_, Options.read_congr (same key)⟩, (positionals_parse all).trans rest⟩
  rw [← Options.get?_eq_given?, ← Options.get?_eq_given?, same]

/-- The key `rom` is given twice, the second value has an equals sign in it, and a positional stands
behind it. -/
theorem parse_sorts_repeated_key :
    let args := ["--rom=a.ch8", "-v", "--rom=x=y", "in.ch8"]
    let o : Options := ⟨[("ips", "900"), ("note", "a=b")]⟩
    (parse args).positionals = ["-v", "in.ch8"] ∧
    (parse args).options.read "rom" = .text "x=y" ∧
    (parse args).options.read "ips" = .absent ∧ (parse args).options.read "valueOf" = .builtIn ∧
    (∀ key, (parse ["--note=a=b", "in.ch8", "--ips=900"]).options.read key = o.read key) := by
  intro args o
  obtain ⟨positionals, -, -, lookup, unnamed, roundtrip⟩ := parse_sorts args
  have plain : ¬ Hyphened "in.ch8" := by decide
  have named : Named "rom=x=y" "rom" "x=y" := ⟨by decide, by decide, by decide, by decide⟩
  have rom : Denotes "--rom=x=y" "rom" "x=y" :=
    (by decide : "--" ++ "rom=x=y" = "--rom=x=y") ▸ .named named
  have silent (value : String) : ¬ Denotes "in.ch8" "rom" value := fun denotes =>
    plain (hyphened_iff_exists_denotes.2 ⟨_, _, denotes⟩)
  have others {key : String} (other : ∀ arg ∈ args,
    (option? arg.toList).map Prod.fst ≠ some key.toList) :
      ∀ arg ∈ args, ∀ value, ¬ Denotes arg key value := fun arg member value denotes =>
    other arg member (congrArg (Option.map Prod.fst) denotes.option?)
  refine ⟨positionals, ?_, ?_, ?_, ?_⟩
  · refine ((lookup "rom" (by decide)).1 "x=y").2
      ⟨["--rom=a.ch8", "-v"], _, ["in.ch8"], rfl, rom, fun later member => ?_⟩
    exact List.mem_singleton.1 member ▸ silent
  · exact (unnamed "ips" (.inr (others (by decide)))).trans (if_neg (by decide))
  · exact (unnamed "valueOf" (.inr (others (by decide)))).trans (if_pos (by decide))
  · have writable : Writable o := ⟨by decide, by decide, by decide, by decide, by decide⟩
    have order : [("note", "a=b"), ("ips", "900")].Perm o.entries := .swap ..
    have back := roundtrip o writable _ order ["in.ch8"] (by simpa using plain) _
      (.left (.right (.left .nil)))
    exact fun key => (back.1 key).2

/-- No argument is there to denote the key `constructor`, and yet reading it answers something. An
argument that denotes the reserved key is no positional, and gives no value either. -/
theorem read_constructor_of_nothing :
    (∀ arg ∈ ([] : List String), ∀ value, ¬ Denotes arg "constructor" value) ∧
    "constructor" ≠ Options.reserved ∧ (parse []).options.read "constructor" ≠ .absent ∧
    Denotes "--__proto__=x" "__proto__" "x" ∧ (parse ["--__proto__=x"]).positionals = [] ∧
    (parse ["--__proto__=x"]).options.given? "__proto__" = none := by
  have named : Named "__proto__=x" "__proto__" "x" := ⟨by decide, by decide, by decide, by decide⟩
  have joined : "--" ++ "__proto__=x" = "--__proto__=x" := by decide
  exact ⟨nofun, by decide, by decide, joined ▸ .named named, by decide, by decide⟩

end Chip8.Arguments
