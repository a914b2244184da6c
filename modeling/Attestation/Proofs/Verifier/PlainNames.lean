import Attestation.Proofs.Verifier.Layout

/-!
# Plain names of verifiers

The classes and files of a verifier are named for its attestation type and its data source.
When those are words of letters and digits, and the directories of the options are plain, the
names can be put into a script as they are (`plain_make`).

## Design notes

Names are put together from words that a user gives, by small letters, hyphens and endings, and
none of these steps brings in a character of another kind.  So `Plain` is derived from the words
and the directories and is not a condition on every name.  That the options of the template are
plain shows that the conditions can be met.
-/

namespace Attestation

open Text

namespace Text

/-! ## Letters and digits -/

/-- The letters and digits are among the first 128 characters. -/
theorem exists_ofNat_of_alphanum {c : Char} (h : c.isAlphanum = true) :
    ∃ n < 128, c = Char.ofNat n := by
  refine ⟨c.toNat, ?_, by simp⟩
  -- the three ranges: capitals, small letters and digits
  change ((decide (c.val ≥ 'A'.val ∧ c.val ≤ 'Z'.val)
    || c.val ≥ 'a'.val && c.val ≤ 'z'.val)
    || c.val ≥ '0'.val && c.val ≤ '9'.val) = true at h
  simp only [Bool.or_eq_true, Bool.and_eq_true, decide_eq_true_eq, ge_iff_le,
    UInt32.le_iff_toNat_le] at h
  have size : c.toNat = c.val.toNat := rfl
  simp at h
  omega

theorem isAlphanum_toLower {c : Char} (h : c.isAlphanum = true) :
    c.toLower.isAlphanum = true := by
  obtain ⟨n, hn, rfl⟩ := exists_ofNat_of_alphanum h
  exact (by decide : ∀ n < 128, (Char.ofNat n).isAlphanum = true →
    (Char.ofNat n).toLower.isAlphanum = true) n hn h

/-- In small letters, a word of letters and digits is such a word. -/
theorem toSmallFrom_alphanum {cs : List Char} (h : ∀ c ∈ cs, c.isAlphanum = true)
    (before : List Char) :
    toSmallFrom before cs = cs.map Char.toLower := by
  induction cs generalizing before with
  | nil => rfl
  | cons c cs ih =>
      obtain ⟨n, hn, hc⟩ := exists_ofNat_of_alphanum (h c (by simp))
      have ascii : c.toNat < 128 := by
        rw [hc]
        exact (by decide : ∀ n < 128, (Char.ofNat n).toNat < 128) n hn
      have sigma : c ≠ '\u03a3' := by
        rintro rfl
        exact absurd ascii (by decide)
      rw [toSmallFrom, if_neg sigma, smallLetter, if_pos ascii, ih fun d hd =>
        h d (by simp [hd])]
      rfl

theorem isAlphanum_toSmall {s : String} (h : Verifier.IsAlphanum s) :
    Verifier.IsAlphanum (toSmall s) := by
  have text : (toSmall s).toList = s.toList.map Char.toLower := by
    rw [toSmall, String.toList_ofList, toSmallFrom_alphanum h.alphanum]
  refine ⟨by simpa [text] using h.nonempty, ?_⟩
  intro c hc
  rw [text, List.mem_map] at hc
  obtain ⟨d, hd, rfl⟩ := hc
  exact isAlphanum_toLower (h.alphanum d hd)

/-- The kebab form of a word holds only letters, digits and hyphens. -/
theorem mem_kebabFrom {first : Bool} {cs : List Char} (h : ∀ c ∈ cs, c.isAlphanum = true) :
    ∀ c ∈ kebabFrom first cs, c = '-' ∨ c.isAlphanum = true := by
  fun_induction kebabFrom first cs with
  | case1 => simp
  | case2 first c r upper ih =>
      intro d hd
      simp only [List.mem_append] at hd
      rcases hd with (hd | hd) | hd
      · split at hd
        · cases hd
        · exact .inl (List.mem_singleton.mp hd)
      · obtain ⟨e, he, rfl⟩ := List.mem_map.mp hd
        exact .inr (isAlphanum_toLower (h e (List.mem_of_mem_take he)))
      · exact ih (fun e he => h e (List.mem_of_mem_drop he)) d hd
  | case3 first c r small ih =>
      intro d hd
      rcases List.mem_cons.mp hd with rfl | hd
      · exact .inr (h d (by simp))
      · exact ih (fun e he => h e (List.mem_cons_of_mem _ he)) d hd

end Text

namespace Verifier

open Attestation.Path

/-- The directories of the options that wiring looks at are plain. -/
structure Options.IsPlain (o : Options) : Prop where
  appModule : o.appModuleRelativePath.IsPlain
  services : o.servicesRelPath.IsPlain
  controllers : o.controllersRelPath.IsPlain

theorem isPlainDir_moduleDir {o : Options} (h : o.IsPlain) : IsPlainDir (moduleDir o) := by
  obtain ⟨dir, hparent, hdir⟩ := h.appModule.parent
  rw [moduleDir, hparent]
  simp only
  split
  · exact .inl rfl
  · next hne => exact .inr (hdir.resolve_left hne)

theorem isPlainName_of_isAlphanum {s : String} (h : IsAlphanum s) : IsPlainName s.toList where
  nonempty := h.nonempty
  chars c hc := by simp [isNameChar, h.alphanum c hc]
  head hdot := by
    have letter := h.alphanum '.' (List.mem_of_mem_head? hdot)
    exact absurd letter (by decide)

/-- A file name that goes on behind a word. -/
theorem isPlainName_append {s : String} (h : IsAlphanum s) {t : String}
    (ht : ∀ c ∈ t.toList, isNameChar c = true) : IsPlainName (s ++ t).toList where
  nonempty := by simpa using fun hnil => absurd hnil (by simpa using h.nonempty)
  chars c hc := by
    rw [String.toList_append, List.mem_append] at hc
    rcases hc with hc | hc
    · exact (isPlainName_of_isAlphanum h).chars c hc
    · exact ht c hc
  head hdot := by
    have front := (isPlainName_of_isAlphanum h).head
    rw [String.toList_append, List.head?_append_of_ne_nil _ h.nonempty] at hdot
    exact front hdot

/-- The files of a verifier have plain names. -/
theorem isPlainName_fileStem (o : Options) {t d : String} (ht : IsAlphanum t)
    (hd : IsAlphanum d) {suffix : String}
    (hs : ∀ c ∈ suffix.toList, isNameChar c = true) :
    IsPlainName ((Names.make o t d).fileStem ++ suffix).toList := by
  have text : (Names.make o t d).fileStem ++ suffix
      = toSmall d ++ ("-" ++ kebab t ++ "-verifier" ++ suffix) := by
    simp [Names.make, String.append_assoc]
  rw [text]
  refine isPlainName_append (isAlphanum_toSmall hd) ?_
  intro c hc
  simp only [String.toList_append, List.mem_append] at hc
  rcases hc with ((hc | hc) | hc) | hc
  · exact (forall_mem_of_all (by decide) : ∀ c ∈ "-".toList, isNameChar c = true) c hc
  · rw [kebab, String.toList_ofList] at hc
    rcases mem_kebabFrom ht.alphanum c hc with rfl | hc
    · decide
    · simp [isNameChar, hc]
  · exact (forall_mem_of_all (by decide) : ∀ c ∈ "-verifier".toList, isNameChar c = true) c hc
  · exact hs c hc

theorem controllerDir_make (o : Options) (t d : String) :
    (Names.make o t d).controllerDir = o.controllersRelPath.entry (toSmall d) := by
  rw [Names.make]

theorem serviceDir_make (o : Options) (t d : String) :
    (Names.make o t d).serviceDir = o.servicesRelPath.entry (toSmall d) := by
  rw [Names.make]

/-- What starts with a data source and a type and goes on with letters is a word. -/
theorem isAlphanum_append {t d : String} (ht : IsAlphanum t) (hd : IsAlphanum d)
    {suffix : String}
    (hs : ∀ c ∈ suffix.toList, c.isAlphanum = true) : IsAlphanum ((d ++ t) ++ suffix) := by
  have named : d ≠ "" := by
    rintro rfl
    exact hd.nonempty rfl
  refine ⟨by simp [named], ?_⟩
  intro c hc
  simp only [String.toList_append, List.mem_append] at hc
  rcases hc with (hc | hc) | hc
  · exact hd.alphanum c hc
  · exact ht.alphanum c hc
  · exact hs c hc

theorem isAlphanum_controllerClass (o : Options) {t d : String} (ht : IsAlphanum t)
    (hd : IsAlphanum d) :
    IsAlphanum (Names.make o t d).controllerClass :=
  isAlphanum_append ht hd (forall_mem_of_all (by decide))

theorem isAlphanum_serviceClass (o : Options) {t d : String} (ht : IsAlphanum t)
    (hd : IsAlphanum d) :
    IsAlphanum (Names.make o t d).serviceClass :=
  isAlphanum_append ht hd (forall_mem_of_all (by decide))

/-- **The names of a verifier are plain** when its type, its data source and its directories
are. -/
theorem plain_make (here : Path) {o : Options} (ho : o.IsPlain) {t d : String}
    (ht : IsAlphanum t)
    (hd : IsAlphanum d) : Plain here o (Names.make o t d) := by
  have small := isAlphanum_toSmall hd
  have dir := isPlainName_of_isAlphanum small
  have controller : (Names.make o t d).controllerModule.IsPlain := by
    rw [Names.controllerModule, controllerDir_make]
    exact (ho.controllers.entry dir).entry (isPlainName_fileStem o ht hd
      (forall_mem_of_all (by decide)))
  have service : (Names.make o t d).serviceModule.IsPlain := by
    rw [Names.serviceModule, serviceDir_make]
    exact (ho.services.entry dir).entry (isPlainName_fileStem o ht hd
      (forall_mem_of_all (by decide)))
  exact {
    controllerClass := isAlphanum_controllerClass o ht hd
    serviceClass := isAlphanum_serviceClass o ht hd
    controllerModule := isSpecifier_specifier (isPlainDir_moduleDir ho) controller
    serviceModule := isSpecifier_specifier (isPlainDir_moduleDir ho) service }

/-- A fixed path is plain when its pieces are. -/
theorem isPlain_of_splitOn {p : Path} (names : List (List Char))
    (h : List.splitOn '/' p.text.toList = names)
    (plain : ∀ name ∈ names, name ≠ [] ∧ name.all isNameChar = true ∧ name.head? ≠ some '.') :
    p.IsPlain := by
  intro name hname
  obtain ⟨hne, chars, head⟩ := plain name (h ▸ hname)
  exact ⟨hne, List.all_eq_true.mp chars, head⟩

theorem isPlain_template : Options.template.IsPlain :=
  ⟨isPlain_of_splitOn _ rfl (by decide), isPlain_of_splitOn _ rfl (by decide),
    isPlain_of_splitOn _ rfl (by decide)⟩

theorem isAlphanum_payment : IsAlphanum "Payment" := ⟨by decide, forall_mem_of_all (by decide)⟩

theorem isAlphanum_btc : IsAlphanum "BTC" := ⟨by decide, forall_mem_of_all (by decide)⟩

theorem isAlphanum_doge : IsAlphanum "DOGE" := ⟨by decide, forall_mem_of_all (by decide)⟩

theorem plain_template (here : Path) :
    Plain here .template (Names.make .template "Payment" "BTC") :=
  plain_make here isPlain_template isAlphanum_payment isAlphanum_btc

end Verifier

end Attestation
