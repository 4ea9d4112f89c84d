import Mathlib.Data.List.Basic

/-!
# Slash-separated paths

The parts of a path that programs take apart and put together: base name, extension, join, and the
files of a directory.
-/

namespace Lib.Path

/-- The part of `path` after its last separator, trailing separators ignored. -/
def basename (path : String) : String :=
  .ofList ((path.toList.reverse.dropWhile (· = '/')).takeWhile (· ≠ '/')).reverse

/-- The characters from the last dot of a base name to its end; nothing for a base name without
a dot or with only a leading one. -/
def extensionOf (base : List Char) : List Char :=
  let after := base.reverse.takeWhile (· ≠ '.')
  let before := base.reverse.drop (after.length + 1)
  if base = ['.', '.'] ∨ '.' ∉ base ∨ before = [] then [] else '.' :: after.reverse

/-- The extension of `path`, with its dot. -/
def extension (path : String) : String := .ofList (extensionOf (basename path).toList)

/-- The base name of `path` without its extension. -/
def basenameWithoutExtension (path : String) : String :=
  let base := (basename path).toList
  .ofList (base.take (base.length - (extensionOf base).length))

/-- `part` under the directory `dir`; an absolute `part` stands for itself. -/
def join (dir part : String) : String :=
  if part.toList.head? = some '/' then part
  else if dir = "" ∨ dir.toList.getLast? = some '/' then dir ++ part
  else dir ++ "/" ++ part

/-- `path` is somewhere under the directory `dir`. -/
def isUnder (dir path : String) : Bool := (dir.toList ++ ['/']).isPrefixOf path.toList

/-- `path` is an entry of the directory `dir` itself. -/
def isEntryOf (dir path : String) : Bool :=
  isUnder dir path && !(path.toList.drop (dir.toList.length + 1)).contains '/'

example : extension "pieces/piece_1.pdf" = ".pdf" := by decide

/-! ## The entries of a directory -/

section

variable {dir path : String} {base name ext : List Char}

theorem isEntryOf_iff : isEntryOf dir path = true ↔
    ∃ base, path.toList = dir.toList ++ '/' :: base ∧ '/' ∉ base := by
  simp only [isEntryOf, isUnder, Bool.and_eq_true, List.isPrefixOf_iff_prefix,
    Bool.not_eq_true', List.contains_eq_mem, decide_eq_false_iff_not]
  constructor
  · rintro ⟨⟨base, hbase⟩, hslash⟩
    refine ⟨base, by rw [← hbase, List.append_assoc, List.singleton_append], ?_⟩
    rw [← hbase] at hslash
    simpa using hslash
  · rintro ⟨base, hpath, hslash⟩
    rw [hpath]
    exact ⟨⟨base, by simp⟩, by simpa using hslash⟩

theorem takeWhile_append_cons {p : Char → Bool} {front rest : List Char} {c : Char}
    (hfront : ∀ x ∈ front, p x = true) (hc : p c = false) :
    (front ++ c :: rest).takeWhile p = front := by
  rw [List.takeWhile_append_of_pos hfront, List.takeWhile_cons_of_neg (by simp [hc]),
    List.append_nil]

/-- The base name of an entry is what stands after its directory. -/
theorem basename_of_toList {dir : List Char} (hpath : path.toList = dir ++ '/' :: base)
    (hslash : '/' ∉ base) (hne : base ≠ []) : (basename path).toList = base := by
  have hhead : (base.reverse ++ '/' :: dir.reverse).dropWhile (· = '/') =
      base.reverse ++ '/' :: dir.reverse := by
    cases hrev : base.reverse with
    | nil => exact absurd (List.reverse_eq_nil_iff.mp hrev) hne
    | cons last front =>
      have hlast : last ∈ base := List.mem_reverse.mp (hrev ▸ List.mem_cons_self)
      rw [List.cons_append, List.dropWhile_cons_of_neg]
      grind
  have htake : (base.reverse ++ '/' :: dir.reverse).takeWhile (· ≠ '/') = base.reverse :=
    takeWhile_append_cons (by grind) (by simp)
  rw [basename, String.toList_ofList, hpath, List.reverse_append, List.reverse_cons,
    List.append_assoc, List.singleton_append, hhead, htake, List.reverse_reverse]

/-- What is joined to a directory stands at the end. -/
theorem suffix_join (dir part : String) : part.toList <:+ (join dir part).toList := by
  unfold join
  split_ifs
  · exact List.suffix_rfl
  · rw [String.toList_append]
    exact List.suffix_append _ _
  · rw [String.toList_append]
    exact List.suffix_append _ _

theorem toList_join {dir part : String} (hpart : part.toList.head? ≠ some '/') (hdir : dir ≠ "")
    (hlast : dir.toList.getLast? ≠ some '/') :
    (join dir part).toList = dir.toList ++ '/' :: part.toList := by
  rw [join, if_neg hpart, if_neg (by simp [hdir, hlast]), String.toList_append,
    String.toList_append, List.append_assoc]
  rfl

/-- What stands after the last dot is the extension, unless the dot comes first. -/
theorem extensionOf_append (hdot : '.' ∉ ext) (hext : ext ≠ []) :
    extensionOf (name ++ '.' :: ext) = if name = [] then [] else '.' :: ext := by
  have hafter : (ext.reverse ++ '.' :: name.reverse).takeWhile (· ≠ '.') = ext.reverse :=
    takeWhile_append_cons (by grind) (by simp)
  have hbefore : (ext.reverse ++ '.' :: name.reverse).drop (ext.reverse.length + 1) =
      name.reverse := by
    rw [List.drop_append, List.drop_eq_nil_of_le (by omega), Nat.add_sub_cancel_left]
    rfl
  have hdots : name ++ '.' :: ext ≠ ['.', '.'] := by
    intro h
    have hlength := congrArg List.length h
    simp only [List.length_append, List.length_cons, List.length_nil] at hlength
    have hlong := List.length_pos_iff.mpr hext
    obtain rfl := List.length_eq_zero_iff.mp (show name.length = 0 by omega)
    exact hdot ((List.cons.inj h).2 ▸ List.mem_singleton_self _)
  have hrev : (name ++ '.' :: ext).reverse = ext.reverse ++ '.' :: name.reverse := by simp
  simp only [extensionOf, hrev, hafter, hbefore, hdots, List.reverse_eq_nil_iff, false_or,
    List.mem_append, List.mem_cons, true_or, or_true, not_true_eq_false, List.reverse_reverse]

/-- An extension is empty or a dot and what stands after it. -/
theorem extensionOf_cases (base : List Char) : extensionOf base = [] ∨
    ∃ ext, extensionOf base = '.' :: ext ∧ '.' ∉ ext ∧ ∀ c ∈ ext, c ∈ base := by
  simp only [extensionOf]
  split_ifs
  · exact .inl rfl
  · refine .inr ⟨_, rfl, ?_, ?_⟩
    · intro h
      have hne := List.all_takeWhile (p := fun c : Char => decide (c ≠ '.')) (l := base.reverse)
      simpa using List.all_eq_true.mp hne '.' (List.mem_reverse.mp h)
    · intro c hc
      exact List.mem_reverse.mp ((List.takeWhile_sublist _).subset (List.mem_reverse.mp hc))

/-- A name without a dot that gets an extension has it. -/
theorem extensionOf_append_extensionOf (hname : name ≠ []) (hdot : '.' ∉ name) :
    extensionOf (name ++ extensionOf base) = extensionOf base := by
  obtain hnone | ⟨ext, hext, hnodot, -⟩ := extensionOf_cases base
  · rw [hnone, List.append_nil, extensionOf]
    exact if_pos (.inr (.inl hdot))
  · rw [hext]
    cases ext with
    | nil =>
      have hrev : (name ++ ['.']).reverse = '.' :: name.reverse := by simp
      have hdots : name ++ ['.'] ≠ ['.', '.'] := by
        intro h
        obtain ⟨c, rest, rfl⟩ := List.exists_cons_of_ne_nil hname
        exact hdot ((List.cons.inj h).1 ▸ List.mem_cons_self)
      simp [extensionOf, hrev, hdots, hname]
    | cons c ext => rw [extensionOf_append hnodot (by simp), if_neg hname]

/-- Under a directory, the extension of a name is that of the path. -/
theorem extension_join {part : String} (hpart : '/' ∉ part.toList) (hne : part ≠ "") (hdir : dir ≠ "")
    (hlast : dir.toList.getLast? ≠ some '/') :
    (extension (join dir part)).toList = extensionOf part.toList := by
  have hhead : part.toList.head? ≠ some '/' := fun h => hpart (List.mem_of_head? h)
  rw [extension, String.toList_ofList, basename_of_toList (toList_join hhead hdir hlast) hpart
    (by simpa using hne)]

/-- The base name of a path has no separator. -/
theorem slash_notMem_basename (path : String) : '/' ∉ (basename path).toList := by
  rw [basename, String.toList_ofList]
  intro h
  have hne := List.all_takeWhile (p := fun c : Char => decide (c ≠ '/'))
    (l := path.toList.reverse.dropWhile (· = '/'))
  simpa using List.all_eq_true.mp hne '/' (List.mem_reverse.mp h)

theorem slash_notMem_extension (path : String) : '/' ∉ (extension path).toList := by
  rw [extension, String.toList_ofList]
  intro h
  obtain hnone | ⟨ext, hext, -, hsub⟩ := extensionOf_cases (basename path).toList
  · simp [hnone] at h
  · rw [hext] at h
    obtain h | h := List.mem_cons.mp h
    · cases h
    · exact slash_notMem_basename path (hsub _ h)

/-- A file that is named after an id and put under a directory with its extension is named so
again. -/
theorem join_extension_join {id : String} (hid : id ≠ "") (hslash : '/' ∉ id.toList)
    (hdot : '.' ∉ id.toList) (hdir : dir ≠ "") (hlast : dir.toList.getLast? ≠ some '/') (path : String) :
    join dir (id ++ extension (join dir (id ++ extension path))) = join dir (id ++ extension path) := by
  have hname : '/' ∉ (id ++ extension path).toList := by
    rw [String.toList_append, List.mem_append]
    exact not_or.mpr ⟨hslash, slash_notMem_extension path⟩
  have hext : extension (join dir (id ++ extension path)) = extension path := by
    apply String.toList_injective
    rw [extension_join hname (by simp [hid]) hdir hlast, String.toList_append, extension,
      String.toList_ofList, extensionOf_append_extensionOf (by simpa using hid) hdot]
  rw [hext]

/-- The base name of an entry without its extension. -/
theorem basenameWithoutExtension_of_toList {dir : List Char}
    (hpath : path.toList = dir ++ '/' :: (name ++ '.' :: ext)) (hslash : '/' ∉ name ++ '.' :: ext)
    (hdot : '.' ∉ ext) (hext : ext ≠ []) :
    (basenameWithoutExtension path).toList = if name = [] then '.' :: ext else name := by
  rw [basenameWithoutExtension, basename_of_toList hpath hslash (by simp), String.toList_ofList,
    extensionOf_append hdot hext]
  split_ifs with hname
  · simp [hname]
  · rw [List.length_append, Nat.add_sub_cancel, List.take_left]

end

end Lib.Path
