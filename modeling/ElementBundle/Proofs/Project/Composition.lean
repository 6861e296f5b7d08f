import ElementBundle.Proofs.Component.Edit
import ElementBundle.Proofs.Project.Repeat

/-! # What a bundle is made of

A disk may list a directory in any order. The build sorts the names, so neither its result nor what
it tells nor what it leaves behind depends on that order. All files go through one pipeline, whose
lexers stay where a failed file has left them; still, what is reported on a file is what a fresh
pipeline makes of its name and its bytes (`Settings.reportOn`). Its tag is its name without suffix,
so two files of one directory never declare the same tag.
-/

namespace ElementBundle.Project

open ElementBundle.Component ElementBundle.Disk ElementBundle.Text

/-! ## Any order of the entries -/

section
variable {s : Settings} {t t' : Tree} {quiet dryRun : Bool}

theorem discover_relisted (h : t.Relisted t') (ht : t.Sound) : s.discover t' = s.discover t := by
  have hget := Disk.Tree.get_congr (h.at?_eq ht.distinct)
  have hsort : ∀ place,
      (((t'.children place).filter fun e => s.isComponent e.1 e.2).map (·.1)).mergeSort nameLE =
        (((t.children place).filter fun e => s.isComponent e.1 e.2).map (·.1)).mergeSort nameLE := by
    intro place
    refine eq_of_perm_of_nameLE ?_ (pairwise_mergeSort_nameLE _) (pairwise_mergeSort_nameLE _)
    have hnames := ((h.children place).filter fun e => s.isComponent e.1 e.2).map (·.1)
    exact (List.mergeSort_perm _ _).trans (hnames.trans (List.mergeSort_perm _ _).symm)
  have hdirectory : ∀ path, t'.isDirectory path = t.isDirectory path := by
    intro path
    simp only [Tree.isDirectory, hget]
  cases hpath : s.componentsPath with
  | error fault => simp only [Settings.discover, hpath, bind, Except.bind]
  | ok directory =>
    simp only [Settings.discover, hpath, bind, Except.bind, hdirectory]
    rw [hsort directory.parts]

theorem cleanUp_relisted (h : t.Relisted t') (hkeys : (t.entries.map (·.1)).Nodup) (file : Path) :
    (cleanUp t file).1.Relisted (cleanUp t' file).1 ∧ (cleanUp t' file).2 = (cleanUp t file).2 := by
  have same := h.at?_eq hkeys
  simp only [cleanUp, Tree.place, Tree.walk_congr same, same]
  cases t.walk [] file.parts with
  | error r => exact ⟨h, rfl⟩
  | ok place =>
    dsimp only
    cases t.at? place with
    | none => exact ⟨h, rfl⟩
    | some entry =>
      cases entry with
      | directory => exact ⟨h, rfl⟩
      | file bytes stamp => exact ⟨h.erase place, rfl⟩

/-- A write does the same to both listings, and the keys stay distinct up to the last step. -/
theorem writeTemporary_relisted (h : t.Relisted t') (hkeys : (t.entries.map (·.1)).Nodup)
    (trouble : Option Trouble) (file : Path) (bytes : List UInt8) :
    (writeTemporary trouble t file bytes).1.Relisted (writeTemporary trouble t' file bytes).1 ∧
      (writeTemporary trouble t' file bytes).2 = (writeTemporary trouble t file bytes).2 ∧
      ((writeTemporary trouble t file bytes).1.entries.map (·.1)).Nodup := by
  have same := h.at?_eq hkeys
  have hwrite : ∀ bytes, (∃ r, t.write file bytes = .error r ∧ t'.write file bytes = .error r) ∨
      ∃ place, t.write file bytes = .ok (t.stampFile place bytes) ∧
        t'.write file bytes = .ok (t'.stampFile place bytes) := by
    intro bytes
    simp only [Tree.write, Tree.place, Tree.walk_congr same, Tree.isDirectoryAt, same]
    cases t.walk [] file.parts with
    | error r => exact .inl ⟨r, rfl, rfl⟩
    | ok place =>
      by_cases hdir : (t.at? place == some .directory) = true
      · exact .inl ⟨.isDirectory, by simp [hdir], by simp [hdir]⟩
      · exact .inr ⟨place, by simp [hdir], by simp [hdir]⟩
  have hdone : ∀ place bytes, ((t.stampFile place bytes).entries.map (·.1)).Nodup :=
    fun place bytes => Tree.nodup_put hkeys place _
  unfold writeTemporary
  split
  · exact ⟨h, rfl, hkeys⟩
  · rename_i left
    rcases hwrite left with ⟨r, hr, hr'⟩ | ⟨place, hok, hok'⟩
    · simpa [hr, hr', Except.toOption] using ⟨h, hkeys⟩
    · simpa [hok, hok', Except.toOption] using ⟨h.stampFile place left, hdone place left⟩
  · rcases hwrite bytes with ⟨r, hr, hr'⟩ | ⟨place, hok, hok'⟩
    · simpa [hr, hr'] using ⟨h, hkeys⟩
    · simpa [hok, hok'] using ⟨h.stampFile place bytes, hdone place bytes⟩

theorem writeAtomically_relisted (h : t.Relisted t') (hkeys : (t.entries.map (·.1)).Nodup)
    (trouble : Option Trouble) (target : Path) (bytes : List UInt8) :
    (writeAtomically trouble t target bytes).1.Relisted (writeAtomically trouble t' target bytes).1 ∧
      (writeAtomically trouble t' target bytes).2 = (writeAtomically trouble t target bytes).2 := by
  have hexists : ∀ path, t'.exists path = t.exists path := by
    intro path
    simp only [Tree.exists, Disk.Tree.get_congr (h.at?_eq hkeys)]
  obtain ⟨hspare, hdone, hkeys'⟩ :=
    writeTemporary_relisted h hkeys trouble (temporary target) bytes
  simp only [writeAtomically, hexists]
  by_cases hdenied : (trouble = some .denied || !t.exists target.parent) = true
  · simpa only [if_pos hdenied, and_true] using h
  · simp only [if_neg hdenied]
    generalize writeTemporary trouble t (temporary target) bytes = written at *
    generalize writeTemporary trouble t' (temporary target) bytes = written' at *
    obtain ⟨t₁, done⟩ := written
    obtain ⟨t₁', done'⟩ := written'
    obtain rfl : done' = done := hdone
    have same := hspare.at?_eq hkeys'
    have hclean := cleanUp_relisted hspare hkeys' (temporary target)
    cases done' with
    | false => exact hclean
    | true =>
      dsimp only at hspare same hclean ⊢
      have hdirectory : ∀ place, t₁'.isDirectoryAt place = t₁.isDirectoryAt place := by
        intro place
        simp only [Tree.isDirectoryAt, same]
      simp only [Tree.place, Tree.walk_congr same, hdirectory]
      cases trouble with
      | some trouble => exact hclean
      | none =>
        cases t₁.walk [] (temporary target).parts with
        | error r => exact hclean
        | ok source =>
          cases t₁.walk [] target.parts with
          | error r => exact hclean
          | ok place =>
            by_cases hdir : t₁.isDirectoryAt place = true
            · simpa only [if_pos hdir] using hclean
            · simpa only [if_neg hdir, and_true] using hspare.move source place

theorem conclude_relisted (h : t.Relisted t') (hkeys : (t.entries.map (·.1)).Nodup)
    (trouble : Option Trouble) (r : Result) :
    (s.conclude trouble quiet dryRun t' r).outcome = (s.conclude trouble quiet dryRun t r).outcome ∧
      (s.conclude trouble quiet dryRun t' r).stage = (s.conclude trouble quiet dryRun t r).stage ∧
      (s.conclude trouble quiet dryRun t' r).events = (s.conclude trouble quiet dryRun t r).events ∧
      (s.conclude trouble quiet dryRun t r).tree.Relisted (s.conclude trouble quiet dryRun t' r).tree := by
  obtain ⟨hafter, hdone⟩ :=
    writeAtomically_relisted h hkeys trouble r.path (encodeUtf8 r.output)
  simp only [Settings.conclude]
  by_cases hheld : (!(r.reports.filterMap (·.failure?)).isEmpty && decide (s.onError = .abort)) = true
  · simpa only [if_pos hheld, true_and] using h
  · simp only [if_neg hheld]
    cases dryRun with
    | true => exact ⟨rfl, rfl, rfl, h⟩
    | false =>
      generalize writeAtomically trouble t r.path (encodeUtf8 r.output) = written at *
      generalize writeAtomically trouble t' r.path (encodeUtf8 r.output) = written' at *
      obtain ⟨t₁, done⟩ := written
      obtain ⟨t₁', done'⟩ := written'
      obtain rfl : done' = done := hdone
      cases done' with
      | error fault => exact ⟨rfl, rfl, rfl, hafter⟩
      | ok => exact ⟨rfl, rfl, rfl, hafter⟩

/-- A build comes to the same result, and tells the same, in any order of the entries and with any
pipeline. -/
theorem build_relisted (h : t.Relisted t') (ht : t.Sound) (p p' : Pipeline) (stage : Stage)
    (trouble : Option Trouble) :
    let pass := s.build p stage t quiet dryRun trouble
    let pass' := s.build p' stage t' quiet dryRun trouble
    pass'.outcome = pass.outcome ∧ pass'.stage = pass.stage ∧ pass'.events = pass.events ∧
      pass.tree.Relisted pass'.tree := by
  have hget := Disk.Tree.get_congr (h.at?_eq ht.distinct)
  have hattempt : ∀ path, s.attempt t' path = s.attempt t path := by
    intro path
    apply attempt_congr
    simp only [Tree.read, hget]
  have hprevious : ∀ path, previousText t' path = previousText t path := by
    intro path
    simp only [previousText, Tree.read, hget]
  intro pass pass'
  simp only [pass, pass', Settings.build, survey_fst, discover_relisted h ht, hattempt, hprevious]
  cases s.componentsPath with
  | error fault => exact ⟨rfl, rfl, rfl, h⟩
  | ok directory =>
    cases s.outputPath with
    | error fault => exact ⟨rfl, rfl, rfl, h⟩
    | ok path =>
      cases s.discover t with
      | error fault => exact ⟨rfl, rfl, rfl, h⟩
      | ok files =>
        dsimp only
        cases previousText t path with
        | error fault => exact ⟨rfl, rfl, rfl, h⟩
        | ok previous =>
          obtain ⟨houtcome, hstage, hevents, htree⟩ := @conclude_relisted s t t' quiet dryRun h
            ht.distinct trouble
            { stage := .idle, path, previous, written := false
              reports := (files.map fun name => s.attempt t ⟨directory.parts ++ [name]⟩).map (·.report)
              output := bundleText
                ((files.map fun name => s.attempt t ⟨directory.parts ++ [name]⟩).map (·.report)) }
          refine ⟨houtcome, hstage, ?_, htree⟩
          dsimp only
          rw [hevents]

end

/-! ## Each file for itself -/

/-- What a pipeline makes of a file with a name and bytes. -/
def Settings.reportOn (s : Settings) (p : Pipeline) (name : String) (bytes : List UInt8) : Report :=
  { file := name
    tag := stem name
    outcome :=
      match decodeMarkedUtf8 bytes with
      | .error fault => .failed (.unreadable (.encoding fault))
      | .ok text =>
        match (p.run { selfTag := s.selfTag } (some name) (unifyNewlines text)
          (some (stem name).toList)).1.outcome with
        | .ok c => .compiled (productOf c)
        | .error d => .failed (.component d.error) }

section
variable {s : Settings} {directory : Path} {t : Tree} {name : String} {bytes : List UInt8}

theorem report_attempt_of_holds (h : s.Holds directory t name bytes) (ht : t.Sound) (p : Pipeline) :
    (s.attempt t ⟨directory.parts ++ [name]⟩).report = s.reportOn p name bytes := by
  have hname : Path.name ⟨directory.parts ++ [name]⟩ = name := by simp [Path.name]
  have hread : readSource t ⟨directory.parts ++ [name]⟩ =
      ((decodeMarkedUtf8 bytes).map unifyNewlines).mapError .encoding := by
    simp only [readSource, h.read ht]
    cases decodeMarkedUtf8 bytes <;> rfl
  unfold Settings.reportOn
  cases hdecode : decodeMarkedUtf8 bytes with
  | error fault =>
    rw [hdecode] at hread
    rw [attempt_of_error hread, hname]
  | ok text =>
    rw [hdecode] at hread
    rw [attempt_of_ok hread, hname, ← p.run_fst]
    unfold attemptOf
    dsimp only
    split
    · rename_i d houtcome
      simp only [houtcome, hname]
    · rename_i c houtcome
      simp only [houtcome, hname]

/-! ## Tags and names -/

theorem splitSuffix_append (name : List Char) :
    (splitSuffix name).1 ++ (splitSuffix name).2 = name := by
  unfold splitSuffix
  dsimp only
  split
  · exact List.append_nil name
  · rename_i hdivides
    simp only [Bool.or_eq_true, List.isEmpty_iff, not_or] at hdivides
    have hsplit := List.takeWhile_append_dropWhile (p := (· ≠ '.')) (l := name.reverse)
    have hdot := List.head?_dropWhile_not (· ≠ '.') name.reverse
    cases hrest : name.reverse.dropWhile (· ≠ '.') with
    | nil => exact absurd (by rw [hrest]; rfl) hdivides.1.2
    | cons c rest =>
      simp only [hrest, List.head?_cons] at hsplit hdot
      obtain rfl : c = '.' := by simpa using hdot
      calc
        _ = rest.reverse ++ '.' :: (name.reverse.takeWhile (· ≠ '.')).reverse := by simp
        _ = (name.reverse.takeWhile (· ≠ '.') ++ '.' :: rest).reverse := by simp
        _ = name := by rw [hsplit, List.reverse_reverse]

theorem stem_append_suffix (name : String) : stem name ++ suffix name = name := by
  have := splitSuffix_append name.toList
  rw [stem, suffix, ← String.ofList_append, this, String.ofList_toList]

theorem stem_ne_empty (h : suffix name ≠ "") : stem name ≠ "" := by
  intro hstem
  simp only [stem, suffix, splitSuffix] at h hstem
  split at h
  · exact h rfl
  · rename_i hdivides
    rw [if_neg hdivides] at hstem
    simp_all

theorem readExtension_of_make {root : Path} {values : List (Key × Data.Value)} {depth : Nat}
    (h : Settings.make root values depth = .ok s) :
    readExtension (given? values .extension) = .ok s.extension := by
  simp only [Settings.make, bind, Except.bind] at h
  split at h
  · cases h
  · split at h
    · cases h
    · rename_i hextension
      split at h
      · cases h
      · cases h
        exact hextension

theorem extension_ne_empty {root : Path} {values : List (Key × Data.Value)} {depth : Nat}
    (h : Settings.make root values depth = .ok s) : s.extension ≠ "" := by
  have hread := readExtension_of_make h
  intro hempty
  rw [hempty] at hread
  unfold readExtension at hread
  split at hread
  · exact absurd (Except.ok.inj hread) (by decide)
  · rename_i text _
    have htext := Except.ok.inj hread
    split at htext
    · rename_i hdot
      simp [htext] at hdot
    · have := congrArg String.length htext
      simp at this
  · cases hread
  · cases hread

theorem tag_of_compile {renderer : Markup.Renderer} {source tag : List Char} {c : Compiled}
    (htag : tag ≠ []) (h : compile renderer source (some tag) = .ok c) : c.descriptor.tag = tag := by
  obtain ⟨-, -, -, hdescribe, -⟩ := compile_eq_ok h
  obtain ⟨-, found, hfound, -, hsame⟩ := describe_eq_ok hdescribe
  have hgiven : (some tag).filter (!·.isEmpty) = some tag := by simp [htag]
  rw [hgiven] at hfound
  obtain ⟨p, hread, -⟩ := findDirective?_eq_some hfound
  obtain ⟨-, -, rest, -, -, hname, -⟩ := readDirective?_eq_some_iff.1 hread
  simp only [readTagName?, Option.map_eq_some_iff, Prod.mk.injEq] at hname
  obtain ⟨-, -, hdeclared, -⟩ := hname
  rw [← hsame, ← hdeclared]

/-- The registration of a product, as it stands in the bundle. -/
def Product.registration (p : Product) : List Char :=
  Descriptor.registration { tag := p.tag, className := p.className }

theorem exists_registration {renderer : Markup.Renderer} {source : List Char}
    {tag : Option (List Char)} {c : Compiled} (h : compile renderer source tag = .ok c) :
    ∃ front back, (productOf c).output = front ++ (productOf c).registration ++ back := by
  obtain ⟨-, -, -, -, houtput⟩ := compile_eq_ok h
  have hunit : ∃ front, generate c.descriptor (c.span.slice c.script) =
      front ++ c.descriptor.registration :=
    ⟨_, brace_registration _ c.descriptor⟩
  obtain ⟨front, hfront⟩ := hunit
  refine ⟨c.script.take c.span.start ++ front, c.script.drop c.span.stop, ?_⟩
  calc (productOf c).output
      = c.script.take c.span.start ++ (front ++ c.descriptor.registration) ++
          c.script.drop c.span.stop := by rw [← hfront]; exact houtput
    _ = _ := by
      rw [← List.append_assoc]
      rfl

theorem product_reportOn {pipeline : Pipeline} {p : Product} (hname : suffix name ≠ "")
    (h : (s.reportOn pipeline name bytes).product? = some p) :
    String.ofList p.tag = stem name ∧ ∃ front back, p.output = front ++ p.registration ++ back := by
  have htag : (stem name).toList ≠ [] := by
    intro hnil
    exact stem_ne_empty hname (String.toList_eq_nil_iff.1 hnil)
  simp only [Settings.reportOn, Report.product?, pipeline.run_fst, compileFile] at h
  cases hdecode : decodeMarkedUtf8 bytes with
  | error fault => simp [hdecode] at h
  | ok text =>
    simp only [hdecode] at h
    cases hcompile : compile { selfTag := s.selfTag } (unifyNewlines text)
        (some (stem name).toList) with
    | error f =>
      simp only [hcompile, courseOf] at h
      cases h
    | ok c =>
      simp only [hcompile, courseOf, Option.some.injEq] at h
      subst h
      refine ⟨?_, exists_registration hcompile⟩
      rw [productOf, tag_of_compile htag hcompile, String.ofList_toList]

/-! ## The whole bundle -/

/-- What a bundle is made of. -/
structure Settings.Composed (s : Settings) (directory : Path) (t : Tree) (r : Result) : Prop where
  files : ∀ name, name ∈ r.reports.map (·.file) ↔ ∃ bytes, s.Holds directory t name bytes
  /-- No name comes twice, and each comes before the names behind it. -/
  order : (r.reports.map (·.file)).Pairwise (· < ·)
  /-- Each report is that of a pipeline which has gone through no other file. -/
  alone : ∀ report ∈ r.reports, ∃ bytes, s.Holds directory t report.file bytes ∧
    report = s.reportOn {} report.file bytes
  output : r.output =
    prelude ++ (r.reports.filterMap (·.product?)).flatMap fun p => '\n' :: p.output
  tags : ∀ report ∈ r.reports, ∀ p, report.product? = some p →
    String.ofList p.tag = stem report.file ∧ report.tag = stem report.file ∧
      ∃ front back, p.output = front ++ p.registration ++ back
  distinct : ((r.reports.filterMap (·.product?)).map (·.tag)).Nodup

theorem bundleText_eq (reports : List Report) :
    bundleText reports = prelude ++ (reports.filterMap (·.product?)).flatMap fun p =>
      '\n' :: p.output := by
  rw [bundleText]
  congr 1
  induction reports with
  | nil => rfl
  | cons report reports ih =>
    cases h : report.product? with
    | none => simp [h, ih]
    | some p => simp [h, ih]

theorem lt_of_nameLE_of_ne {a b : String} (hle : nameLE a b = true) (hne : a ≠ b) : a < b := by
  simp only [nameLE, decide_eq_true_eq] at hle
  by_contra hlt
  exact hne (String.le_antisymm hle hlt)

theorem Settings.Concludes.output_eq {trouble : Option Trouble} {dryRun : Bool} {r₀ r : Result}
    {stage : Stage} {t' : Tree} (h : s.Concludes trouble t r₀ dryRun r stage t') :
    r.output = r₀.output := by
  cases h <;> rfl

theorem Settings.Surveyed.composed {r : Result} (hr : s.Surveyed t r) (ht : t.Sound)
    (hextension : s.extension ≠ "") (hdirectory : s.componentsPath = .ok directory) :
    s.Composed directory t r := by
  obtain ⟨directory', files, hsame, hfiles, hreports⟩ := hr.reports
  obtain rfl := Except.ok.inj (hdirectory.symm.trans hsame)
  obtain ⟨hmem, hnodup, hsorted⟩ := discover_spec ht hdirectory hfiles
  have hnames := hr.map_file_eq hfiles
  have alone : ∀ report ∈ r.reports, ∃ bytes, s.Holds directory t report.file bytes ∧
      report = s.reportOn {} report.file bytes := by
    intro report hreport
    rw [hreports] at hreport
    obtain ⟨name, hname, rfl⟩ := List.mem_map.1 hreport
    obtain ⟨bytes, hholds⟩ := (hmem name).1 hname
    rw [report_attempt_of_holds hholds ht {}]
    exact ⟨bytes, hholds, rfl⟩
  have order : (r.reports.map (·.file)).Pairwise (· < ·) := by
    rw [hnames]
    apply (hsorted.and hnodup).imp
    intro a b hab
    exact lt_of_nameLE_of_ne hab.1 hab.2
  have tags : ∀ report ∈ r.reports, ∀ p, report.product? = some p →
      String.ofList p.tag = stem report.file ∧ report.tag = stem report.file ∧
        ∃ front back, p.output = front ++ p.registration ++ back := by
    intro report hreport p hp
    obtain ⟨bytes, hholds, heq⟩ := alone report hreport
    have hsuffix : suffix report.file ≠ "" := hholds.named.1 ▸ hextension
    have htag : report.tag = stem report.file := by rw [heq]; rfl
    rw [heq] at hp
    obtain ⟨hstem, hregistered⟩ := product_reportOn hsuffix hp
    exact ⟨hstem, htag, hregistered⟩
  refine ⟨hr.mem_files_iff ht hdirectory, order, alone, ?_, tags, ?_⟩
  · rw [hr.output, bundleText_eq]
  · have hfiles := List.Pairwise.and_mem.1 (List.pairwise_map.1 order)
    refine List.pairwise_map.2 (List.Pairwise.filterMap _ ?_ hfiles)
    rintro report report' ⟨hreport, hreport', hlt⟩ p hp p' hp' hsame
    have hstem : stem report.file = stem report'.file := by
      rw [← (tags report hreport p hp).1, ← (tags report' hreport' p' hp').1, hsame]
    obtain ⟨_, hholds, -⟩ := alone report hreport
    obtain ⟨_, hholds', -⟩ := alone report' hreport'
    have hname : report.file = report'.file := by
      rw [← stem_append_suffix report.file, ← stem_append_suffix report'.file, hstem,
        hholds.named.1, hholds'.named.1]
    rw [hname] at hlt
    exact String.lt_irrefl _ hlt

theorem Settings.Composed.reportOn_of_holds {r : Result} (h : s.Composed directory t r)
    {report : Report} (hreport : report ∈ r.reports)
    (hholds : s.Holds directory t report.file bytes) : report = s.reportOn {} report.file bytes := by
  obtain ⟨bytes', hholds', heq⟩ := h.alone report hreport
  obtain ⟨stamp, hfile⟩ := hholds.file
  obtain ⟨stamp', hfile'⟩ := hholds'.file
  cases hfile.symm.trans hfile'
  exact heq

theorem exists_composed {p : Pipeline} {stage : Stage} {quiet dryRun : Bool}
    {trouble : Option Trouble} {r : Result} (ht : t.Sound) (hextension : s.extension ≠ "")
    (hr : (s.build p stage t quiet dryRun trouble).outcome = .ok r) :
    ∃ directory, s.componentsPath = .ok directory ∧ s.Composed directory t r := by
  rcases build_cases s p stage t quiet with ⟨fault, hfault⟩ | ⟨r₀, hr₀⟩
  · cases (hfault dryRun trouble).symm.trans hr
  · have hconcludes := concludes ((hr₀.build_eq p stage quiet dryRun trouble).1.symm.trans hr)
    obtain ⟨directory, -, hdirectory, -⟩ := hr₀.reports
    have hcomposed := hr₀.composed ht hextension hdirectory
    obtain ⟨files, order, alone, output, tags, distinct⟩ := hcomposed
    rw [← hconcludes.reports_eq] at files order alone output tags distinct
    rw [← hconcludes.output_eq] at output
    exact ⟨directory, hdirectory, files, order, alone, output, tags, distinct⟩

end

/-- The result of a build depends neither on the order in which the disk lists its entries nor on what
its pipeline has gone through. The bundle is its head and the products in the order of their files;
what is reported on a file is what a fresh pipeline makes of that file, so it is the same in every
build that finds the file with these bytes, and no tag is registered twice. -/
theorem build_composition {s : Settings} {root : Path} {values : List (Key × Data.Value)}
    {depth : Nat} {t : Tree} (hmade : Settings.make root values depth = .ok s) (ht : t.Sound)
    (pipeline : Pipeline) (stage : Stage) (quiet dryRun : Bool) (trouble : Option Trouble) :
    let pass := s.build pipeline stage t quiet dryRun trouble
    (∀ t' pipeline', t.Relisted t' →
      let pass' := s.build pipeline' stage t' quiet dryRun trouble
      pass'.outcome = pass.outcome ∧ pass'.stage = pass.stage ∧ pass'.events = pass.events ∧
        pass.tree.Relisted pass'.tree) ∧
    ∀ r, pass.outcome = .ok r →
      ∃ directory, s.componentsPath = .ok directory ∧ s.Composed directory t r ∧
        ∀ t₂ pipeline₂ stage₂ quiet₂ dryRun₂ trouble₂ r₂, t₂.Sound →
          (s.build pipeline₂ stage₂ t₂ quiet₂ dryRun₂ trouble₂).outcome = .ok r₂ →
          ∀ report ∈ r.reports, ∀ bytes, s.Holds directory t report.file bytes →
            s.Holds directory t₂ report.file bytes → report ∈ r₂.reports := by
  have hextension := extension_ne_empty hmade
  intro pass
  refine ⟨fun t' p' h => build_relisted h ht pipeline p' stage trouble, fun r hr => ?_⟩
  obtain ⟨directory, hdirectory, hcomposed⟩ := exists_composed ht hextension hr
  refine ⟨directory, hdirectory, hcomposed, ?_⟩
  intro t₂ p₂ stage₂ quiet₂ dryRun₂ trouble₂ r₂ ht₂ hr₂ report hreport bytes hholds hholds₂
  obtain ⟨directory₂, hsame, hcomposed₂⟩ := exists_composed ht₂ hextension hr₂
  obtain rfl := Except.ok.inj (hdirectory.symm.trans hsame)
  obtain ⟨report₂, hreport₂, hfile⟩ :=
    List.mem_map.1 ((hcomposed₂.files report.file).2 ⟨bytes, hholds₂⟩)
  have hone := hcomposed.reportOn_of_holds hreport hholds
  have htwo := hcomposed₂.reportOn_of_holds hreport₂ (hfile.symm ▸ hholds₂)
  rw [hone, ← hfile, ← htwo]
  exact hreport₂

/-- Settings that are all left as they are, apart from the policy. -/
def patient : Settings :=
  { root := ⟨["w"]⟩, onError := .skip }

/-- A project whose names are listed backwards. The second file ends inside of a block. -/
def backwards : Tree :=
  { entries :=
      [(["w", "components", "e-f.jsx"], .file (encodeUtf8 "class E \x7b // <e-f />\n\x7d".toList) 2),
        (["w", "components", "c-d.jsx"], .file (encodeUtf8 "class C \x7b // <c-d /> \n<p>".toList) 1),
        (["w", "components", "a-b.jsx"], .file (encodeUtf8 "class A \x7b // <a-b />\n\x7d".toList) 0),
        (["w", "components"], .directory), (["w"], .directory)]
    nextStamp := 3 }

def single : Tree :=
  { entries :=
      [(["w"], .directory), (["w", "components"], .directory),
        (["w", "components", "e-f.jsx"], .file (encodeUtf8 "class E \x7b // <e-f />\n\x7d".toList) 0)]
    nextStamp := 1 }

/-- What a build of the project comes to before the policy is applied. -/
def backwardsSurvey : Result :=
  let reports := ["a-b.jsx", "c-d.jsx", "e-f.jsx"].map fun name =>
    (patient.attempt backwards ⟨["w", "components"] ++ [name]⟩).report
  { stage := .idle, path := ⟨["w", "components", "compiled.js"]⟩, reports
    output := bundleText reports, previous := none, written := false }

theorem surveyed_backwards : patient.Surveyed backwards backwardsSurvey := by
  have hpath : patient.componentsPath = .ok ⟨["w", "components"]⟩ := by decide +kernel
  have hlisted : ((backwards.children ["w", "components"]).filter fun e =>
      patient.isComponent e.1 e.2).map (·.1) = ["e-f.jsx", "c-d.jsx", "a-b.jsx"] := by decide +kernel
  have hfiles : patient.discover backwards = .ok ["a-b.jsx", "c-d.jsx", "e-f.jsx"] := by
    refine (discover_eq_ok_iff hpath).2 ⟨by decide, ?_⟩
    rw [hlisted]
    refine eq_of_perm_of_nameLE ?_ (by decide) (pairwise_mergeSort_nameLE _)
    exact (List.reverse_perm ["e-f.jsx", "c-d.jsx", "a-b.jsx"]).trans (List.mergeSort_perm _ _).symm
  exact ⟨by decide +kernel, ⟨_, _, hpath, hfiles, rfl⟩, rfl, by decide +kernel, rfl, rfl⟩

/-- The second file leaves the lexer inside of its block. The report on the third one is the fresh one
all the same. -/
theorem build_composition_backwards :
    (∀ depth, Settings.make ⟨["w"]⟩ [(.onError, .text "skip")] depth = .ok patient) ∧
    backwards.Sound ∧
    (patient.build {} .idle { backwards with entries := backwards.entries.reverse } true
      true).outcome = .ok backwardsSurvey ∧
    backwardsSurvey.reports.map (·.success) = [true, false, true] ∧
    (patient.survey backwards ⟨["w", "components"]⟩ {} ["a-b.jsx", "c-d.jsx"]).2.lexer.state.nesting =
      some 1 ∧
    patient.Composed ⟨["w", "components"]⟩ backwards backwardsSurvey ∧
    ∃ r₂, (patient.build {} .idle single true true).outcome = .ok r₂ ∧
      ∀ report ∈ backwardsSurvey.reports, report.file = "e-f.jsx" → report ∈ r₂.reports := by
  have hmade : ∀ depth, Settings.make ⟨["w"]⟩ [(.onError, .text "skip")] depth = .ok patient :=
    fun _ => rfl
  have hsound : backwards.Sound := ⟨by decide, by decide, by decide⟩
  have hsingle : single.Sound := ⟨by decide, by decide, by decide⟩
  have hr : (patient.build {} .idle backwards true true).outcome = .ok backwardsSurvey :=
    (surveyed_backwards.build_eq {} .idle true true none).1.trans
      (conclude_of_dry (by simp [patient])).1
  obtain ⟨hrelisted, hcomposed⟩ := build_composition (hmade 0) hsound {} .idle true true none
  have hsame := (hrelisted { backwards with entries := backwards.entries.reverse } {}
    ⟨List.reverse_perm _, rfl⟩).1
  obtain ⟨directory, hdirectory, hbundle, halone⟩ := hcomposed _ hr
  obtain rfl : ⟨["w", "components"]⟩ = directory := by
    have hpath : patient.componentsPath = .ok ⟨["w", "components"]⟩ := by decide +kernel
    exact Except.ok.inj (hpath.symm.trans hdirectory)
  refine ⟨hmade, hsound, hsame.trans hr, by decide +kernel, by decide +kernel, hbundle, ?_⟩
  have hreturns : (patient.build {} .idle single true true).outcome.toOption.isSome = true := by
    decide +kernel
  cases hr₂ : (patient.build {} .idle single true true).outcome with
  | error fault => rw [hr₂] at hreturns; cases hreturns
  | ok r₂ =>
    refine ⟨r₂, rfl, fun report hreport hfile => ?_⟩
    have hnames : patient.Names report.file := by
      rw [hfile]
      exact ⟨by decide, by simp [patient]⟩
    refine halone single {} .idle true true none r₂ hsingle hr₂ report hreport
      (encodeUtf8 "class E \x7b // <e-f />\n\x7d".toList) ⟨hnames, 2, ?_⟩ ⟨hnames, 0, ?_⟩
    · rw [hfile]; rfl
    · rw [hfile]; rfl

end ElementBundle.Project
