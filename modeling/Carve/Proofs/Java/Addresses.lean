import Carve.Proofs.Java.Extraction
import Carve.Proofs.Workspace.Staging
import Mathlib.Data.List.TakeWhile

/-!
# Where the files of a workspace go

Every file of a workspace is put below the source root, in the directories of its package and under
the name of a Java file. The name holds a dot and no directory of a package does, so no file stands
where another one has its directories, and none where the list of libraries goes.
-/

namespace Carve

open Disk (isName)

namespace Path

def lead (p : Path) : String :=
  match p.text.toList.getLast? with
  | none => ""
  | some '/' => p.text
  | some _ => p.text ++ "/"

theorem join_eq (p : Path) {q : Path} (hq : q.isAbsolute = false) :
    p.join q = ⟨p.lead ++ q.text⟩ := by
  unfold join lead
  rw [if_neg (by simp [hq])]
  cases p.text.toList.getLast? with
  | none => simp
  | some c =>
    by_cases hc : c = '/'
    · subst hc
      rfl
    · simp

theorem split_lead (p : Path) (cs : List Char) :
    Text.split '/' (p.lead.toList ++ cs) =
      (Text.split '/' p.lead.toList).dropLast ++ Text.split '/' cs := by
  have hend : ∀ front : List Char, Text.split '/' ((front ++ ['/']) ++ cs) =
      (Text.split '/' (front ++ ['/'])).dropLast ++ Text.split '/' cs := by
    intro front
    have hempty : Text.split '/' [] = [[]] := rfl
    rw [List.append_assoc, List.singleton_append, Text.split_append_sep, Text.split_append_sep,
      hempty, List.dropLast_concat]
  unfold lead
  split
  · rfl
  · rename_i hlast
    obtain ⟨front, hfront⟩ := List.getLast?_eq_some_iff.mp hlast
    rw [hfront]
    exact hend front
  · rw [String.toList_append]
    exact hend p.text.toList

theorem spelled_lead (p : Path) :
    Place.spelled (Text.split '/' p.lead.toList).dropLast = p.names := by
  have hempty : Text.split '/' [] = [[]] := rfl
  have hend : ∀ front : List Char, Place.spelled (Text.split '/' (front ++ ['/'])).dropLast =
      Place.spelled (Text.split '/' front) := by
    intro front
    rw [Text.split_append_sep, hempty, List.dropLast_concat]
  unfold lead names segments
  split
  · rename_i hlast
    have htext : p.text = "" := by simpa using hlast
    rw [htext]
    rfl
  · rename_i hlast
    obtain ⟨front, hfront⟩ := List.getLast?_eq_some_iff.mp hlast
    rw [hfront, hend, Text.split_append_sep, hempty, Place.spelled_append]
    exact (List.append_nil _).symm
  · rw [String.toList_append]
    exact hend p.text.toList

theorem not_mem_join {c : Char} (hc : c ≠ '/') {p q : Path} (hp : c ∉ p.text.toList)
    (hq : c ∉ q.text.toList) : c ∉ (p.join q).text.toList := by
  unfold join
  split
  · exact hq
  · split
    · exact hq
    · simp [hp, hq]
    · simp [hp, hq, hc]

theorem components_of_contained {p : Path} (h : p.isContained = true) : p.components =
    (if p.segments.head? = some ['.'] then [.current] else []) ++ p.names.map .name := by
  obtain ⟨hrelative, hdown⟩ := downward_of_isContained h
  cases hs : p.segments with
  | nil => exact absurd hs (Text.split_ne_nil _ _)
  | cons first rest =>
    rw [hs] at hdown
    obtain ⟨hfirst, hrest⟩ := List.ne_and_not_mem_of_not_mem_cons hdown
    have hinner : inner rest = (Place.spelled rest).map .name := by
      rw [inner, Place.spelled, List.map_map]
      refine List.map_congr_left fun s hmem => ?_
      have hup : s ≠ ['.', '.'] := fun heq => hrest (heq ▸ (List.mem_filter.mp hmem).1)
      rw [Component.ofSegment, if_neg hup]
      rfl
    rw [components_eq hs, hinner, hrelative, names, hs]
    by_cases hdot : first = ['.']
    · subst hdot
      rfl
    · by_cases hempty : first = []
      · subst hempty
        rfl
      · have hname : isName first = true := by
          simp [isName, isFiller, hempty, hdot, Ne.symm hfirst]
        simp [hdot, hempty, Component.ofSegment, Ne.symm hfirst, Place.spelled_name hname]

end Path

namespace Text

theorem mem_of_mem_split {sep c : Char} {part cs : List Char} (h : part ∈ split sep cs)
    (hc : c ∈ part) : c ∈ cs := by
  have hpiece : part <:+: join [sep] (split sep cs) := infix_join h
  rw [join_split] at hpiece
  exact hpiece.subset hc

theorem mem_of_splitLast {sep : Char} {s front rest : String}
    (h : splitLast sep s = some (front, rest)) : sep ∈ s.toList := by
  rw [(splitLast_eq_some_iff.mp h).1]
  simp

end Text

namespace Index

/-- Everything that an operation brings stands in a file whose path is of a kind. -/
def Operation.Within (P : Path → Prop) : Operation → Prop
  | .unit u => P u.path
  | .declaration d => ∀ p, d.path? = some p → P p
  | .references _ _ => True

theorem perform_within {P : Path → Prop} {x : Index} {op : Operation} (hop : op.Within P)
    (hx : ∀ f ∈ x.files, P f.2.path) : ∀ f ∈ (x.perform op).files, P f.2.path := by
  cases op with
  | unit u =>
    have hset : ∀ fs : List (Path × SourceUnit), (∀ f ∈ fs, P f.2.path) →
        ∀ f ∈ setFile u fs, P f.2.path := by
      intro fs
      induction fs with
      | nil =>
        intro _ f hf
        rw [List.mem_singleton.mp hf]
        exact hop
      | cons g fs ih =>
        obtain ⟨q, v⟩ := g
        intro hfs f hf
        have hrest : ∀ f ∈ fs, P f.2.path := fun f hf => hfs f (List.mem_cons_of_mem _ hf)
        unfold setFile at hf
        split at hf
        · rcases List.mem_cons.mp hf with rfl | hf
          · exact hop
          · exact hrest f hf
        · rcases List.mem_cons.mp hf with rfl | hf
          · exact hfs (q, v) List.mem_cons_self
          · exact ih hrest f hf
    exact hset x.files hx
  | declaration d =>
    show ∀ f ∈ (x.addDeclaration d).files, P f.2.path
    unfold addDeclaration
    split
    · exact hx
    · dsimp only
      split
      · rename_i p hp
        split
        · exact hx
        · intro f hf
          rcases List.mem_append.mp hf with hf | hf
          · exact hx f hf
          · rw [List.mem_singleton.mp hf]
            exact hop p hp
      · exact hx
  | references source rs =>
    rw [perform, setReferences_files]
    exact hx

theorem ofFiles_within {root : Path} {catalog : Catalog} {files : List SourceFile}
    (hlocated : ∀ f ∈ files, ∀ e ∈ f.entries, e.decl.path? = some f.path) :
    ∀ g ∈ (ofFiles root files catalog).files, ∃ f ∈ files, g.2.path = f.path := by
  have hops : ∀ op ∈ operations files catalog, op.Within fun p => ∃ f ∈ files, p = f.path := by
    intro op hop
    simp only [operations, List.mem_append, List.mem_flatMap, List.mem_map] at hop
    rcases hop with (⟨f, hf, hop⟩ | ⟨d, hd, rfl⟩) | ⟨r, -, rfl⟩
    · rcases List.mem_cons.mp hop with rfl | hop
      · exact ⟨f, hf, rfl⟩
      · obtain ⟨e, -, hdecl⟩ := List.mem_filterMap.mp hop
        obtain ⟨d, hd, rfl⟩ := Option.map_eq_some_iff.mp hdecl
        obtain ⟨g, hg, e', he', rfl⟩ := Table.declaration?_mem hd
        intro p hp
        exact ⟨g, hg, Option.some.inj (hp.symm.trans (hlocated g hg e' he'))⟩
    · intro p hp
      have hlibrary : d ∈ usedLibraries files catalog := List.mem_flatMap.mpr hd
      rw [Declaration.path?, (usedLibraries_library d hlibrary).2.1] at hp
      cases hp
    · trivial
  rw [ofFiles_eq_build, build]
  generalize operations files catalog = ops at hops
  have hempty : ∀ g ∈ (empty root).files, ∃ f ∈ files, g.2.path = f.path := fun g hg => by cases hg
  generalize empty root = x at hempty
  induction ops generalizing x with
  | nil => exact hempty
  | cons op ops ih =>
    exact ih (fun op hop => hops op (List.mem_cons_of_mem _ hop)) _
      (perform_within (hops op List.mem_cons_self) hempty)

theorem mem_files_of_unit? {x : Index} {p : Path} {u : SourceUnit} (h : x.unit? p = some u) :
    ∃ q, (q, u) ∈ x.files := by
  obtain ⟨⟨q, v⟩, hfile, rfl⟩ := Option.map_eq_some_iff.mp h
  refine ⟨q, ?_⟩
  unfold file? at hfile
  split at hfile
  · rename_i f hfind
    obtain rfl := Option.some.inj hfile
    exact List.mem_of_find?_eq_some hfind
  · split at hfile
    · cases hfile
    · split at hfile
      · rename_i f hfind
        obtain rfl := Option.some.inj hfile
        exact List.mem_of_find?_eq_some hfind
      · split at hfile
        · rename_i only honly
          obtain rfl := Option.some.inj hfile
          have hmem : (q, v) ∈ x.files.filter fun f => f.1.endsWith p := by simp [honly]
          exact (List.mem_filter.mp hmem).1
        · cases hfile

end Index

namespace Java

open Workspace (manifestName Clear)

/-- A path below a source root: directories without dots, and then the name of a Java file. What
takes the place of the source root is not below it. -/
structure Addressed (root p : Path) (dirs : List (List Char)) (name : String) : Prop where
  proper : Path.IsName name
  dotted : '.' ∈ name.toList
  own : name ≠ manifestName
  dotless : ∀ s ∈ dirs, '.' ∉ s
  segments : p.segments =
      (Text.split '/' root.lead.toList).dropLast ++ dirs ++ [name.toList] ∨
    p.isContained = false ∧ p.segments = dirs ++ [name.toList]

theorem isName_toList {name : String} (h : Path.IsName name) : isName name.toList = true := by
  have hempty : name.toList ≠ [] := fun heq => h.nonempty (String.toList_eq_nil_iff.mp heq)
  have hdot : name.toList ≠ ['.'] := fun heq => h.proper.1 (String.toList_inj.mp heq)
  have hup : name.toList ≠ ['.', '.'] := fun heq => h.proper.2 (String.toList_inj.mp heq)
  simp [isName, Path.isFiller, hempty, hdot, hup]

theorem name_of_accepts {p : Path} (h : Index.accepts p = true) :
    ∃ name, p.fileName? = some name ∧ '.' ∈ name.toList ∧ name ≠ manifestName := by
  unfold Index.accepts Path.hasExtension at h
  cases hext : p.extension? with
  | none => simp [hext] at h
  | some ext =>
    rw [hext] at h
    obtain ⟨name, hname, hsplit⟩ := Option.bind_eq_some_iff.mp hext
    refine ⟨name, hname, ?_, ?_⟩
    · obtain ⟨⟨stem, ext'⟩, hparts, -⟩ := Option.bind_eq_some_iff.mp hsplit
      exact Text.mem_of_splitLast hparts
    · rintro rfl
      have htxt : ext = "txt" := by
        have hlist : ((Text.splitLast '.' manifestName).bind fun parts =>
            if parts.1.isEmpty then none else some parts.2) = some "txt" := by decide
        exact Option.some.inj (hsplit.symm.trans hlist)
      rw [htxt] at h
      revert h
      decide

theorem exists_addressed (root : Path) {u : SourceUnit} (h : Index.accepts u.path = true) :
    ∃ dirs name, Addressed root (root.join (relativePath u)) dirs name := by
  obtain ⟨name, hname, hdot, hown⟩ := name_of_accepts h
  have hproper := Path.isName_fileName hname
  obtain ⟨dir, hrel, hdir⟩ : ∃ dir : Path, relativePath u = dir.join ⟨name⟩ ∧
      '.' ∉ dir.text.toList := by
    unfold relativePath
    simp only [hname]
    refine ⟨_, rfl, ?_⟩
    cases u.package with
    | none => simp
    | some package =>
      have hparts : ∀ s ∈ Text.parts '.' package, '.' ∉ s.toList := by
        intro s hs
        obtain ⟨part, hpart, rfl⟩ := List.mem_map.mp hs
        rw [String.toList_ofList]
        exact Text.not_mem_of_mem_split part hpart
      have main : ∀ (ss : List String) (p : Path), (∀ s ∈ ss, '.' ∉ s.toList) →
          '.' ∉ p.text.toList → '.' ∉ (ss.foldl (fun p s => p.join ⟨s⟩) p).text.toList := by
        intro ss
        induction ss with
        | nil => exact fun p _ hp => hp
        | cons s ss ih =>
          intro p hss hp
          exact ih _ (fun s hs => hss s (List.mem_cons_of_mem _ hs))
            (Path.not_mem_join (by decide) hp (hss s List.mem_cons_self))
      exact main _ _ hparts (by simp)
  have hrelative : (Path.mk name).isAbsolute = false := by
    unfold Path.isAbsolute
    rw [beq_eq_false_iff_ne]
    exact fun hhead => hproper.slashless (List.mem_of_head? hhead)
  have hlead : '.' ∉ dir.lead.toList := by
    unfold Path.lead
    split
    · simp
    · exact hdir
    · simp [hdir]
  have hsegments : (relativePath u).segments =
      (Text.split '/' dir.lead.toList).dropLast ++ [name.toList] := by
    rw [hrel, Path.join_eq dir hrelative, Path.segments, String.toList_append, Path.split_lead,
      Text.split_of_not_mem hproper.slashless]
  refine ⟨(Text.split '/' dir.lead.toList).dropLast, name, hproper, hdot, hown, ?_, ?_⟩
  · exact fun s hs hmem => hlead (Text.mem_of_mem_split (List.dropLast_subset _ hs) hmem)
  · cases habsolute : (relativePath u).isAbsolute with
    | true =>
      right
      have hjoin : root.join (relativePath u) = relativePath u := by simp [Path.join, habsolute]
      rw [hjoin]
      refine ⟨?_, hsegments⟩
      by_contra hin
      have hno := (Path.downward_of_isContained (by simpa using hin)).1
      rw [habsolute] at hno
      cases hno
    | false =>
      left
      rw [Path.join_eq root habsolute, Path.segments, String.toList_append, Path.split_lead,
        List.append_assoc]
      exact congrArg _ hsegments

section

variable {root p q : Path} {dirs dirs' : List (List Char)} {name name' : String}

theorem Addressed.named (h : Addressed root p dirs name) : p.Named := by
  rcases h.segments with hsegments | ⟨-, hsegments⟩
  · exact ⟨_, _, hsegments, isName_toList h.proper⟩
  · exact ⟨_, _, hsegments, isName_toList h.proper⟩

theorem Addressed.names (h : Addressed root p dirs name) :
    p.names = root.names ++ (Place.spelled dirs ++ [name]) ∨
      p.isContained = false ∧ p.names = Place.spelled dirs ++ [name] := by
  have hname : Place.spelled [name.toList] = [name] := by
    rw [Place.spelled_name (isName_toList h.proper), Place.spelled_nil, String.ofList_toList]
  rcases h.segments with hsegments | ⟨hout, hsegments⟩
  · left
    rw [Path.names, hsegments, Place.spelled_append, Place.spelled_append, Path.spelled_lead, hname,
      List.append_assoc]
  · right
    exact ⟨hout, by rw [Path.names, hsegments, Place.spelled_append, hname]⟩

theorem dotless_spelled (h : ∀ s ∈ dirs, '.' ∉ s) : ∀ n ∈ Place.spelled dirs, '.' ∉ n.toList := by
  intro n hn
  obtain ⟨s, hs, rfl⟩ := List.mem_map.mp hn
  rw [String.toList_ofList]
  exact h s (List.mem_filter.mp hs).1

theorem Addressed.names_ne (h : Addressed root p dirs name) : p.names ≠ [manifestName] := by
  intro heq
  have hlast : p.names.getLast? = some name := by
    rcases h.names with hnames | ⟨-, hnames⟩ <;> simp [hnames]
  rw [heq] at hlast
  exact h.own (Option.some.inj hlast).symm

theorem manifest_apart (h : Addressed root p dirs name) :
    ¬ [manifestName] <+: Place.spelled dirs ++ [name] := by
  intro hbelow
  have hdotless := dotless_spelled h.dotless
  cases hnames : Place.spelled dirs with
  | nil =>
    rw [hnames, List.nil_append, List.cons_prefix_cons] at hbelow
    exact h.own hbelow.1.symm
  | cons n ns =>
    rw [hnames, List.cons_append, List.cons_prefix_cons] at hbelow
    refine hdotless n (by simp [hnames]) ?_
    rw [← hbelow.1]
    decide

/-- Below a source root that does not begin with the name of the list of libraries no file is in
the way of that list. -/
theorem Addressed.clear_of_list (h : Addressed root p dirs name)
    (hroot : root.names.head? ≠ some manifestName) : ¬ [manifestName] <+: p.names := by
  rcases h.names with hnames | ⟨-, hnames⟩
  · cases hfirst : root.names with
    | nil =>
      rw [hnames, hfirst, List.nil_append]
      exact manifest_apart h
    | cons n ns =>
      rw [hnames, hfirst, List.cons_append, List.cons_prefix_cons]
      rintro ⟨rfl, -⟩
      simp [hfirst] at hroot
  · rw [hnames]
    exact manifest_apart h

theorem Addressed.head?_eq (h : Addressed root p dirs name) (hin : p.isContained = true) :
    p.segments.head? = some ['.'] ↔
      (Text.split '/' root.lead.toList).dropLast.head? = some ['.'] := by
  have hsegments := h.segments.resolve_right fun hout => by simp [hin] at hout
  rw [hsegments]
  cases (Text.split '/' root.lead.toList).dropLast with
  | cons s rest => simp
  | nil =>
    cases hdirs : dirs with
    | nil =>
      have hne : name.toList ≠ ['.'] := fun heq => h.proper.proper.1 (String.toList_inj.mp heq)
      simp [hne]
    | cons s rest =>
      have hne : s ≠ ['.'] := by
        rintro rfl
        exact h.dotless ['.'] (by simp [hdirs]) (by simp)
      simp [hne]

/-- Files of different places do not stand in each other's way. -/
theorem Addressed.clear {f g : Path × String} (hf : Addressed root f.1 dirs name)
    (hg : Addressed root g.1 dirs' name') (hfin : f.1.isContained = true)
    (hgin : g.1.isContained = true) (hdiff : ¬ f.1.Same g.1) : Clear f g := by
  have hfnames := hf.names.resolve_right fun hout => by simp [hfin] at hout
  have hgnames := hg.names.resolve_right fun hout => by simp [hgin] at hout
  have hne : f.1.names ≠ g.1.names := by
    intro heq
    refine hdiff ?_
    unfold Path.Same
    rw [Path.components_of_contained hfin, Path.components_of_contained hgin, heq]
    simp only [hf.head?_eq hfin, hg.head?_eq hgin]
  have hapart : ∀ {A B : List String} {m n : String}, (∀ s ∈ B, '.' ∉ s.toList) → '.' ∈ m.toList →
      A ++ [m] ≠ B ++ [n] → ¬ A ++ [m] <+: B ++ [n] := by
    intro A B m n hB hm hdiff hbelow
    have hin := (List.prefix_concat_iff.mp hbelow).resolve_left hdiff
    exact hB m (hin.subset (by simp)) hm
  rw [hfnames, hgnames] at hne
  unfold Clear
  rw [hfnames, hgnames, List.prefix_append_right_inj, List.prefix_append_right_inj]
  refine ⟨hapart (dotless_spelled hg.dotless) hf.dotted fun heq => hne (congrArg _ heq),
    hapart (dotless_spelled hf.dotless) hg.dotted fun heq => hne (congrArg _ heq.symm)⟩

end

/-- The files of a workspace are put below the source root, and side by side. -/
theorem workspace_orderly {top : Path} {sources : List SourceText} {catalog : Catalog}
    {e : Extraction} {c : Closure} {w : Workspace}
    (hw : c.workspace e writer (Index.ofSources top sources catalog) = .ok w) :
    Workspace.Orderly w.files ∧
      ∀ f ∈ w.files, ∃ dirs name, Addressed e.sourceRoot f.1 dirs name := by
  unfold Closure.workspace at hw
  cases hsels : Extraction.selections c.members with
  | error fault =>
    rw [hsels] at hw
    cases hw
  | ok sels =>
    cases hfiles : sels.mapM fun s =>
        e.fileOf writer (Index.ofSources top sources catalog) s.1 s.2 with
    | error fault =>
      rw [hsels] at hw
      simp only [bind, Except.bind, hfiles] at hw
      cases hw
    | ok files =>
      rw [hsels] at hw
      simp only [bind, Except.bind, hfiles] at hw
      obtain rfl := Except.ok.inj hw
      have haddress : ∀ f ∈ (Workspace.ofFiles files (Extraction.librariesOf c.members)).files,
          ∃ dirs name, Addressed e.sourceRoot f.1 dirs name := by
        intro f hf
        obtain ⟨g, hg, hpath⟩ := Workspace.path_of_mem_ofFiles hf
        obtain ⟨s, -, hs⟩ := Extraction.mem_of_mapM hfiles g hg
        unfold Extraction.fileOf at hs
        split at hs
        · cases hs
        · rename_i unit hunit
          obtain rfl := Except.ok.inj hs
          obtain ⟨q, hmem⟩ := Index.mem_files_of_unit? hunit
          obtain ⟨file, hfile, hsame⟩ :=
            Index.ofFiles_within (fun _ => readAll_located) _ hmem
          obtain ⟨source, haccepts, rfl⟩ := mem_readAll hfile
          rw [← hpath]
          exact exists_addressed e.sourceRoot (hsame ▸ haccepts)
      refine ⟨⟨fun f hf _ => ?_, ?_⟩, haddress⟩
      · obtain ⟨dirs, name, h⟩ := haddress f hf
        exact h.named
      · refine (Workspace.apart _).imp_of_mem fun hf hg hdiff hfin hgin => ?_
        obtain ⟨dirs, name, h⟩ := haddress _ hf
        obtain ⟨dirs', name', h'⟩ := haddress _ hg
        exact h.clear h' hfin hgin hdiff

end Java

end Carve
