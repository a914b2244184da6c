import Attestation.Proofs.Path.Specifier
import Attestation.Proofs.Workspace.FileTree

/-!
# Paths of entries

What joining and another extension make of the path of an entry of a directory.  Neither looks
into the path of the directory, so both can be moved past it (`join_entry`,
`withExtension_entry`), and the path still ends with the name (`suffix_entry`).

## Design notes

The text of a path may end with a separator, be empty or be absolute, and `entry` treats each of
these in its own way.  `frontOf` gathers them in one text that stands in front of the name, and
whatever only depends on the name is proved once for `frontOf dir` and any name.  The same is
done for the start and the pieces of a path (`exists_lead_entry`), from which an extension is
replaced.
-/

namespace Attestation.Path

open FileTree Text

theorem isAbsolute_of_isEntryName {name : String} (h : IsEntryName name) :
    (⟨name⟩ : Path).isAbsolute = false := by
  rw [isAbsolute, decide_eq_false_iff_not]
  exact fun first => h.not_slash (List.mem_of_mem_head? first)

/-- What stands in front of the name of an entry. -/
def frontOf (dir : Path) : String :=
  if dir.text.isEmpty || dir.text.toList.getLast? = some '/' then dir.text else dir.text ++ "/"

theorem join_of_relative (left : Path) {right : Path} (h : right.isAbsolute = false) :
    left.join right = ⟨left.frontOf ++ right.text⟩ := by
  rw [join, if_neg (by simp [h]), frontOf]
  split <;> rfl

theorem entry_eq (dir : Path) {name : String} (h : IsEntryName name) :
    dir.entry name = ⟨dir.frontOf ++ name⟩ :=
  join_of_relative dir (isAbsolute_of_isEntryName h)

theorem join_of_absolute (left : Path) {right : Path} (absolute : right.isAbsolute = true) :
    left.join right = right :=
  if_pos absolute

theorem join_ne_empty {left right : Path} (h : left.text ≠ "") :
    (left.join right).text ≠ "" := by
  unfold join
  split
  · next absolute =>
    intro empty
    rw [isAbsolute, empty] at absolute
    cases absolute
  · split <;> simp [h]

theorem entry_ne_empty {dir : Path} (h : dir.text ≠ "") (name : String) :
    (dir.entry name).text ≠ "" := join_ne_empty h

/-- A front can be put in front of names as it is. -/
theorem frontOf_frontOf (dir : Path) : frontOf ⟨dir.frontOf⟩ = dir.frontOf := by
  rw [frontOf, if_pos]
  rw [frontOf]
  split
  · assumption
  · simp [List.getLast?_append]

/-- A relative path behind a directory is absolute if the directory is. -/
theorem isAbsolute_join (dir : Path) {p : Path} (relative : p.isAbsolute = false) :
    (dir.join p).isAbsolute = dir.isAbsolute := by
  rw [join_of_relative dir relative]
  simp only [isAbsolute, decide_eq_false_iff_not] at relative ⊢
  by_cases empty : dir.text = ""
  · obtain rfl : dir = ⟨""⟩ := congrArg Path.mk empty
    have front : frontOf ⟨""⟩ = "" := by decide
    rw [front, String.empty_append]
    simpa using relative
  · have full : dir.text.toList ≠ [] := by simpa using empty
    rw [frontOf]
    split <;> simp [List.head?_append_of_ne_nil _ full]

/-- **The entry of a joined directory** is the joined entry. -/
theorem join_entry (repo dir : Path) {name : String} (hname : IsEntryName name) :
    repo.join (dir.entry name) = (repo.join dir).entry name := by
  have below : (dir.entry name).isAbsolute = dir.isAbsolute :=
    isAbsolute_join dir (isAbsolute_of_isEntryName hname)
  cases absolute : dir.isAbsolute with
  | true => rw [join_of_absolute repo (below.trans absolute), join_of_absolute repo absolute]
  | false =>
      have front : (repo.join dir).frontOf = repo.frontOf ++ dir.frontOf := by
        rw [join_of_relative repo absolute]
        by_cases empty : dir.text = ""
        · have none_ : dir.frontOf = "" := by simp [frontOf, empty]
          rw [empty, none_, String.append_empty, frontOf_frontOf]
        · have full : dir.text.toList ≠ [] := by simpa using empty
          have last : (repo.frontOf ++ dir.text).toList.getLast?
              = dir.text.toList.getLast? := by
            rw [String.toList_append, List.getLast?_append_of_ne_nil _ full]
          have one : dir.text.isEmpty = false := by simpa using empty
          have two : (repo.frontOf ++ dir.text).isEmpty = false := by simp [empty]
          rw [frontOf.eq_def ⟨_⟩, frontOf.eq_def dir]
          dsimp only
          rw [last, one, two]
          split
          · rfl
          · rw [String.append_assoc]
      rw [join_of_relative repo (below.trans absolute), entry_eq _ hname, entry_eq _ hname,
        front, String.append_assoc]

theorem lead_of_root {p : Path} {rest : List Char} (h : p.text.toList = '/' :: rest) :
    p.lead = (['/'], (List.splitOn '/' rest).reverse) := by
  rw [lead, h]
  rfl

theorem lead_of_not_root {p : Path} (h : p.text.toList.head? ≠ some '/') :
    p.lead = if startsHere p.text.toList then (['.'],
      (List.splitOn '/' p.text.toList.tail).reverse)
      else ([], (List.splitOn '/' p.text.toList).reverse) := by
  rw [lead]
  split
  · next heq => exact absurd (by rw [heq]; rfl) h
  · rfl

section Lead

variable {name : String}

theorem splitOn_entryName (h : IsEntryName name) :
    List.splitOn '/' name.toList = [name.toList] :=
  List.splitOn_eq_singleton h.not_slash

theorem reverse_splitOn_append (inner : List Char) (h : IsEntryName name) :
    (List.splitOn '/' (inner ++ '/' :: name.toList)).reverse
      = name.toList :: (List.splitOn '/' inner).reverse := by
  rw [List.splitOn_append_cons_self, splitOn_entryName h, List.reverse_append,
    List.reverse_singleton, List.singleton_append]

/-- A path is put together again from its start and its pieces. -/
theorem eq_ofLead {p : Path} {start rest : List Char} (h : IsEntryName name)
    (text : p.text.toList = start ++ (rest ++ '/' :: name.toList)) :
    p = ofLead start (name.toList :: (List.splitOn '/' rest).reverse) := by
  rw [ofLead, ← reverse_splitOn_append rest h, List.reverse_reverse, List.intercalate_splitOn,
    ← text, String.ofList_toList]

/-- The start of a path that does not begin at the root, and its pieces. -/
theorem lead_of_relative {p : Path} {c : Char} {rest : List Char} (h : IsEntryName name)
    (text : p.text.toList = c :: rest ++ '/' :: name.toList) (relative : c ≠ '/') :
    p.lead = if startsHere (c :: rest)
      then (['.'], name.toList :: (List.splitOn '/' rest).reverse)
      else ([], name.toList :: (List.splitOn '/' (c :: rest)).reverse) := by
  have outside : p.text.toList.head? ≠ some '/' := by
    rw [text]
    simpa using relative
  have here : startsHere p.text.toList = startsHere (c :: rest) := by
    rw [text, startsHere, List.splitOn_append_cons_self,
      List.head?_append_of_ne_nil _ (List.splitOn_ne_nil _ _), startsHere]
  cases dot : startsHere (c :: rest) with
  | false =>
      rw [lead_of_not_root outside, here, dot, text, reverse_splitOn_append _ h]
      rfl
  | true =>
      rw [lead_of_not_root outside, here, dot, text, List.cons_append, List.tail_cons,
        reverse_splitOn_append _ h]
      rfl

/-- A relative path that starts here begins with a dot. -/
theorem eq_dot_of_startsHere {c : Char} {rest : List Char} (relative : c ≠ '/')
    (dot : startsHere (c :: rest) = true) : c = '.' := by
  obtain ⟨piece, more, tail⟩ := exists_splitOn '/' rest
  simp only [startsHere, splitOn_cons_of_ne relative tail, List.head?_cons,
    Option.some.injEq, decide_eq_true_eq, List.cons.injEq] at dot
  exact dot.1

/-- The start of a path with a separator, and the pieces in front of its last name, do not
depend on that name. -/
theorem exists_lead_of_toList (inner : List Char) : ∃ start more, ∀ (name : String) (p : Path),
    IsEntryName name → p.text.toList = inner ++ '/' :: name.toList →
    p.lead = (start, name.toList :: more) ∧ p = ofLead start (name.toList :: more) := by
  cases inner with
  | nil =>
      refine ⟨['/'], [], fun name p h text => ⟨?_, ?_⟩⟩
      · rw [lead_of_root text, splitOn_entryName h]
        rfl
      · rw [ofLead, List.reverse_singleton, List.intercalate_singleton, List.singleton_append,
          ← List.nil_append (_ :: _), ← text, String.ofList_toList]
  | cons c rest =>
      by_cases slash : c = '/'
      · subst slash
        refine ⟨['/'], _, fun name p h text => ⟨?_, eq_ofLead h text⟩⟩
        rw [lead_of_root text, ← reverse_splitOn_append rest h]
        rfl
      · cases dot : startsHere (c :: rest) with
        | false =>
            refine ⟨[], _, fun name p h text => ⟨?_, eq_ofLead h
              (show p.text.toList = [] ++ (c :: rest ++ '/' :: name.toList) from text)⟩⟩
            rw [lead_of_relative h text slash, dot]
            rfl
        | true =>
            obtain rfl := eq_dot_of_startsHere slash dot
            refine ⟨['.'], _, fun name p h text => ⟨?_, eq_ofLead h text⟩⟩
            rw [lead_of_relative h text slash, dot]
            rfl

/-- The start of the path of an entry, and the pieces in front of its name, do not depend on
the name. -/
theorem exists_lead_entry (dir : Path) : ∃ start more, ∀ name, IsEntryName name →
    (dir.entry name).lead = (start, name.toList :: more) ∧
    dir.entry name = ofLead start (name.toList :: more) := by
  rcases Bool.eq_false_or_eq_true dir.text.isEmpty with empty | full
  · refine ⟨[], [], fun name hname => ?_⟩
    have text : dir.entry name = ⟨name⟩ := by
      rw [entry_eq dir hname, frontOf, if_pos (by simp [empty]), String.isEmpty_iff.mp empty,
        String.empty_append]
    have here : startsHere name.toList = false := by
      rw [startsHere, splitOn_entryName hname, decide_eq_false_iff_not, List.head?_cons,
        Option.some.injEq]
      exact fun dot => hname.ne_here (String.toList_inj.mp dot)
    rw [text, lead_of_not_root fun h => hname.not_slash (List.mem_of_mem_head? h),
      here, splitOn_entryName hname]
    exact ⟨rfl, by simp [ofLead]⟩
  · obtain ⟨inner, hinner⟩ : ∃ inner : List Char, dir.frontOf.toList = inner ++ ['/'] := by
      rw [frontOf]
      split
      · next h =>
          rw [full, Bool.false_or] at h
          exact List.getLast?_eq_some_iff.mp (of_decide_eq_true h)
      · exact ⟨_, String.toList_append⟩
    obtain ⟨start, more, lead⟩ := exists_lead_of_toList inner
    refine ⟨start, more, fun name hname => lead name _ hname ?_⟩
    rw [entry_eq dir hname, String.toList_append, hinner, List.append_assoc,
      List.singleton_append]

end Lead

/-- A name up to its last dot. -/
theorem stem_append {name extension : List Char} (hname : name ≠ []) (hext : '.' ∉ extension) :
    stem (name ++ '.' :: extension) = name := by
  have rev : (name ++ '.' :: extension).reverse.dropWhile (· ≠ '.') = '.' :: name.reverse := by
    have inside : ∀ c ∈ extension.reverse, decide (c ≠ '.') = true := by
      intro c hc
      have ne : c ≠ '.' := by
        rintro rfl
        exact hext (List.mem_reverse.mp hc)
      simpa using ne
    rw [List.reverse_append, List.reverse_cons, List.append_assoc,
      List.dropWhile_append_of_pos inside]
    rfl
  obtain ⟨last, front, shape⟩ :=
    List.exists_cons_of_ne_nil (mt List.reverse_eq_nil_iff.mp hname)
  rw [stem, rev, List.tail_cons, shape]
  dsimp only
  rw [← shape, List.reverse_reverse]

/-- **The path of an entry with another extension** is the path of the entry with the other
name. -/
theorem withExtension_entry (dir : Path) {name old : String} (hname : name ≠ "")
    (hold : '.' ∉ old.toList)
    (new : String) (long : IsEntryName (name ++ "." ++ old))
    (long' : IsEntryName (name ++ "." ++ new)) :
    (dir.entry (name ++ "." ++ old)).withExtension new = dir.entry (name ++ "." ++ new) := by
  obtain ⟨start, more, hlead⟩ := exists_lead_entry dir
  have chars : ∀ ext : String, (name ++ "." ++ ext).toList
      = name.toList ++ '.' :: ext.toList := by simp
  have idle : isIdle (name ++ "." ++ old).toList = false := by
    have empty : (name ++ "." ++ old).toList ≠ [] := by simp
    have dot : (name ++ "." ++ old).toList ≠ ['.'] :=
      fun h => long.ne_here (String.toList_inj.mp h)
    simp only [isIdle, dot, decide_false, Bool.or_false, List.isEmpty_eq_false_iff]
    exact empty
  have up : (name ++ "." ++ old).toList ≠ ['.', '.'] :=
    fun h => long.ne_up (String.toList_inj.mp h)
  rw [withExtension, (hlead _ long).1, (hlead _ long').2]
  dsimp only
  rw [List.dropWhile_cons, idle, if_neg Bool.false_ne_true]
  dsimp only
  rw [if_neg up, chars, chars, stem_append (by simpa using hname) hold]

/-! ## Endings -/

theorem suffix_join (left right : Path) :
    right.text.toList <:+ (left.join right).text.toList := by
  unfold join
  split
  · exact List.suffix_rfl
  · split
    · simp
    · rw [String.toList_append, String.toList_append]
      exact List.suffix_append _ _

theorem suffix_entry (dir : Path) (name : String) :
    name.toList <:+ (dir.entry name).text.toList :=
  suffix_join dir ⟨name⟩

/-- A path with another extension ends with it, unless it cannot have one. -/
theorem suffix_withExtension (p : Path) (extension : String) :
    p.withExtension extension = p ∨
    '.' :: extension.toList <:+ (p.withExtension extension).text.toList := by
  unfold withExtension
  dsimp only
  split
  · next last more _ =>
      split
      · exact .inl rfl
      · refine .inr ?_
        rw [ofLead, String.toList_ofList, List.reverse_cons]
        refine List.IsSuffix.trans ?_ (List.suffix_append _ _)
        exact List.IsSuffix.trans (List.suffix_append _ _) (suffix_intercalate _ _ _)
  · exact .inl rfl

end Attestation.Path
