import Carve.Proofs.Java.HeaderParts
import Carve.Proofs.Java.TypeUses

/-!
# The scope of type names

Of the types and annotations that are written in a declaration all are found but types whose names
are hidden: type parameters of the declaration and of the types around it, and types that its body
declares.
-/

namespace Carve.Java

variable {source : List Char}

/-! ### What is written in declarations -/

section

variable {n d t : Node}

/-- The type or the annotation is written in the method or constructor. -/
inductive CallableWrites (n : Node) : Node → Prop
  | annotated {a : Node} : Annotated n a → CallableWrites n a
  | bound {ps p t : Node} : n.child? .typeParameters = some ps → p ∈ ps.named → t ∈ p.named →
      t.kind = .typeBound ∨ t.kind = .annotationMark → CallableWrites n t
  | result {t : Node} : n.child? .type = some t → CallableWrites n t
  | parameter {ps c t : Node} : n.child? .parameters = some ps → c ∈ ps.children →
      c.kind ≠ .token → Writes c t → CallableWrites n t
  | thrown {c t : Node} : n.firstOf? .throws = some c → t ∈ c.named → CallableWrites n t
  | body {c t : Node} : n.child? .body = some c → Writes c t → CallableWrites n t
  | value {c t : Node} : n.child? .value = some c → Writes c t → CallableWrites n t

/-- The type or the annotation is written in the header of the type. -/
inductive HeaderWrites (n : Node) : Node → Prop
  | annotated {a : Node} : Annotated n a → HeaderWrites n a
  | bound {ps p t : Node} : n.child? .typeParameters = some ps → p ∈ ps.named → t ∈ p.named →
      t.kind = .typeBound ∨ t.kind = .annotationMark → HeaderWrites n t
  | supertype {t : Node} : t ∈ Reader.listedSupertypes n → HeaderWrites n t
  | component {ps c t : Node} : ps ∈ n.named → ps.kind = .formalParameters → c ∈ ps.children →
      c.kind ≠ .token → Writes c t → HeaderWrites n t

inductive FieldWrites (n d : Node) : Node → Prop
  | annotated {a : Node} : Annotated n a → FieldWrites n d a
  | type {t : Node} : n.child? .type = some t → FieldWrites n d t
  | value {c t : Node} : d.child? .value = some c → Writes c t → FieldWrites n d t

inductive ConstantWrites (n : Node) : Node → Prop
  | annotated {a : Node} : Annotated n a → ConstantWrites n a
  | argument {c t : Node} : n.child? .arguments = some c → Writes c t → ConstantWrites n t
  | body {c t : Node} : n.child? .body = some c → Writes c t → ConstantWrites n t

theorem passes_visitParameters {ps c : Node} (hc : c ∈ ps.children) (hkind : c.kind ≠ .token) :
    Passes (visitParameters source ps) (visit source c) :=
  passes_visitKinds hc (by simpa using hkind)

theorem grows_child (source : List Char) (n : Node) (r : Role) (w : Walk) :
    Grows w (match n.child? r with | some c => visit source c w | none => w) :=
  (respects_grows source).childVisit (fun _ _ => trivial) r w

theorem uses_child {c : Node} {r : Role} (hc : n.child? r = some c) (hwrites : Writes c t) :
    Uses source (fun w => match n.child? r with | some c => visit source c w | none => w) t :=
  .optional hc hwrites.uses

theorem CallableWrites.uses (h : CallableWrites n t) : Uses source (callableWalk source n) t := by
  have hgrows := respects_grows source
  have htypeUse : Reference.Kind.typeUse ≠ .unresolved := by simp
  have hthrown : Reference.Kind.throws ≠ .unresolved := by simp
  have hbounds := hgrows.optional (n.child? .typeParameters) fun c _ => hgrows.typeParameterRefs c
  have hresult := hgrows.optional (n.child? .type) fun c _ => hgrows.typeRefs htypeUse c
  have hparams := hgrows.optional (n.child? .parameters) fun c _ =>
    hgrows.visitParameters c trivial
  have hthrows := hgrows.optional (n.firstOf? .throws) fun c _ =>
    hgrows.foldl fun t (_ : t ∈ c.named) => hgrows.typeRefs hthrown t
  have hbody := grows_child source n .body
  have hvalue := grows_child source n .value
  cases h with
  | annotated ha =>
    exact ((((((ha.uses source).before hbounds).before hresult).before hparams).before
      hthrows).before hbody).before hvalue
  | bound hps hp ht hkind =>
    have hstep := Uses.optional hps (uses_typeParameterRefs source hp ht hkind)
    exact (((((hstep.after _).before hresult).before hparams).before hthrows).before
      hbody).before hvalue
  | result ht =>
    have hstep := Uses.optional (f := typeRefs source .typeUse) ht (.self htypeUse t)
    exact ((((hstep.after _).before hparams).before hthrows).before hbody).before hvalue
  | parameter hps hc hkind hwrites =>
    have hstep := Uses.optional (f := visitParameters source) hps
      ((passes_visitParameters hc hkind).uses hwrites.uses)
    exact (((hstep.after _).before hthrows).before hbody).before hvalue
  | thrown hc ht =>
    have hfold := Passes.foldl (fun w t => hgrows.typeRefs hthrown t w) ht
    have hstep := Uses.optional
      (f := fun c w => c.named.foldl (fun w t => typeRefs source .throws t w) w) hc
      (hfold.uses (.self hthrown t))
    exact ((hstep.after _).before hbody).before hvalue
  | body hc hwrites => exact ((uses_child hc hwrites).after _).before hvalue
  | value hc hwrites => exact (uses_child hc hwrites).after _

theorem HeaderWrites.uses (h : HeaderWrites n t) : Uses source (headerWalk source n) t := by
  have hgrows := respects_grows source
  have hsupertype : Reference.Kind.supertype ≠ .unresolved := by simp
  have hbounds := hgrows.optional (n.child? .typeParameters) fun c _ => hgrows.typeParameterRefs c
  have hsteps : ∀ w c, Grows w (headerStep source w c) := fun w c => hgrows.headerStep trivial w
  have hall := hgrows.foldl fun c (_ : c ∈ n.named) => (hsteps · c)
  cases h with
  | annotated ha => exact ((ha.uses source).before hbounds).before hall
  | bound hps hp ht hkind =>
    have hstep := Uses.optional hps (uses_typeParameterRefs source hp ht hkind)
    exact (hstep.after _).before hall
  | supertype ht =>
    obtain ⟨c, hc, ht⟩ := List.mem_flatMap.mp ht
    have hstep : Uses source (fun w => headerStep source w c) t := by
      unfold headerStep
      split at ht
      iterate 3
        · rename_i hkind
          rw [hkind]
          exact (Passes.foldl (fun w t => hgrows.typeRefs hsupertype t w) ht).uses
            (.self hsupertype t)
      · cases ht
    exact ((Passes.foldl hsteps hc).uses hstep).after _
  | @component ps c t hps hkind hc htoken hwrites =>
    have hstep : Passes (fun w => headerStep source w ps) (visit source c) := by
      unfold headerStep
      rw [hkind]
      exact passes_visitParameters hc htoken
    exact (((Passes.foldl hsteps hps).trans hstep).uses hwrites.uses).after _

theorem FieldWrites.uses (h : FieldWrites n d t) : Uses source (fieldWalk source n d) t := by
  have hgrows := respects_grows source
  have htypeUse : Reference.Kind.typeUse ≠ .unresolved := by simp
  have htype := hgrows.optional (n.child? .type) fun c _ => hgrows.typeRefs htypeUse c
  have hvalue := grows_child source d .value
  cases h with
  | annotated ha => exact ((ha.uses source).before htype).before hvalue
  | type ht =>
    have hstep := Uses.optional (f := typeRefs source .typeUse) ht (.self htypeUse t)
    exact (hstep.after _).before hvalue
  | value hc hwrites => exact (uses_child hc hwrites).after _

theorem ConstantWrites.uses (h : ConstantWrites n t) : Uses source (constantWalk source n) t := by
  have harguments := grows_child source n .arguments
  have hbody := grows_child source n .body
  cases h with
  | annotated ha => exact ((ha.uses source).before harguments).before hbody
  | argument hc hwrites => exact ((uses_child hc hwrites).after _).before hbody
  | body hc hwrites => exact (uses_child hc hwrites).after _

end

/-! ### The rule -/

/-- Of the types that are written here the walk finds none whose name is hidden before, and all
whose name is neither hidden before nor that of a type declared below. Of the annotations it finds
all. -/
structure Scoped (source : List Char) (writes : Node → Prop) (roots : List Node)
    (f : Walk → Walk) : Prop where
  hides : ∀ w x, x ∈ w.hidden →
    ∃ new, (f w).sites = w.sites ++ new ∧ ∀ s ∈ new, ¬ Begins x s
  finds : ∀ w t m, writes t → InType t m → Nameable source m → leading source m ∉ w.hidden →
    (∀ d ∈ Node.nodesIn roots, ¬ LocalType source d (leading source m)) →
    Found source (f w).sites m
  marks : ∀ w t a name, writes t → InType t a → a.kind = .annotationMark →
    a.child? .name = some name →
    ⟨.annotationUse, .type (name.text source), some name.range⟩ ∈ (f w).sites

/-- What respects the steps of a walk follows the rule if it uses what is written. -/
theorem Scoped.of_uses {writes : Node → Prop} {roots : List Node} {f : Walk → Walk}
    (hf : ∀ {N P}, Respects source N P → (∀ n ∈ Node.nodesIn roots, N n) → P f)
    (huses : ∀ t, writes t → Uses source f t) : Scoped source writes roots f where
  hides w x hx := (hf (respects_hides source x) (fun _ _ => trivial) w hx).sites
  finds w t m hwrites ht hm hw hfree := by
    obtain ⟨names, hnames, hlocal⟩ := hf (respects_hidden source roots) (fun _ hn => hn) w
    rcases ((huses t hwrites).inside ht).found hm w with ⟨s, hs, hmention⟩ | hhidden
    · exact ⟨s, List.mem_reverse.mpr hs, hmention⟩
    · rw [hnames] at hhidden
      rcases List.mem_append.mp hhidden with hx | hx
      · obtain ⟨d, hd, hname⟩ := hlocal _ hx
        exact absurd hname (hfree d hd)
      · exact absurd hx hw
  marks w t a name hwrites ht ha hname :=
    List.mem_reverse.mpr (((huses t hwrites).inside ht).marked ha hname w)

/-- Names of types are hidden and found as they are scoped: in all syntax, in methods and
constructors, in headers, in fields and in constants nothing is found of a type parameter around
it, nor of a type that a body declares from there on, and all other types that are written are
found. -/
theorem types_are_scoped (source : List Char) :
    (∀ n, Scoped source (Writes n) [n] (visit source n)) ∧
    (∀ n, Scoped source (CallableWrites n) n.children (callableWalk source n)) ∧
    (∀ n, Scoped source (HeaderWrites n) n.children (headerWalk source n)) ∧
    (∀ n d, Scoped source (FieldWrites n d) d.children (fieldWalk source n d)) ∧
    (∀ n, Scoped source (ConstantWrites n) n.children (constantWalk source n)) ∧
    (∀ n d before after x w, n.kind ∈ framedKinds → n.children = before ++ d :: after →
      d.role ≠ some .name → LocalType source d x →
      ∃ new, (visit source n w).sites = (visitParts source true before w.enter).sites ++ new ∧
        ∀ s ∈ new, ¬ Begins x s) ∧
    ∀ r : Reader, r.source = source → ∀ n,
      let hidden := r.frames.flatMap (·.params)
      let own := r.typeParameterNames n
      r.callableSites n = (callableWalk source n { hidden := hidden ++ own }).sites ∧
      r.headerSites n = (headerWalk source n { hidden := hidden ++ own }).sites ∧
      r.readInitializer n = r.propagate (visit source n { hidden := hidden ++ [] }).sites ∧
      (∀ count owner d, (d.child? .name).isSome → ∃ decl, Reader.readDeclarator n count owner r d =
        r.addMember decl (fieldWalk source n d { hidden := hidden ++ [] }).sites) ∧
      ∀ owner, r.owner? = some owner → owner.kind = .enumType → (n.child? .name).isSome →
        ∃ decl, r.readConstant n =
          r.addMember decl (constantWalk source n { hidden := hidden ++ [] }).sites := by
  have hroots := fun {ns : List Node} {N : Node → Prop} (h : ∀ n ∈ Node.nodesIn ns, N n) n hn =>
    h n (Node.subset_nodesIn ns n hn)
  refine ⟨fun n => ?_, fun n => ?_, fun n => ?_, fun n d => ?_, fun n => ?_,
    fun n d before after x w hn hsplit hrole hd => localType_hides hn hsplit hrole hd w, ?_⟩
  · exact .of_uses (fun h hn => h.visit n (hroots hn n (by simp))) fun t ht => ht.uses
  · exact .of_uses (fun h hn => h.callableWalk (hroots hn)) fun t ht => ht.uses
  · exact .of_uses (fun h hn => h.headerWalk (hroots hn)) fun t ht => ht.uses
  · exact .of_uses (fun h hn => h.fieldWalk (hroots hn)) fun t ht => ht.uses
  · exact .of_uses (fun h hn => h.constantWalk (hroots hn)) fun t ht => ht.uses
  · rintro r rfl n
    refine ⟨rfl, rfl, rfl, fun count owner d hname => ?_, fun owner howner henum hname => ?_⟩
    · obtain ⟨c, hc⟩ := Option.isSome_iff_exists.mp hname
      unfold Reader.readDeclarator
      rw [hc]
      exact ⟨_, rfl⟩
    · obtain ⟨c, hc⟩ := Option.isSome_iff_exists.mp hname
      unfold Reader.readConstant
      rw [howner, hc]
      dsimp only
      rw [if_pos (by simp [henum])]
      exact ⟨_, rfl⟩

def crate : List Char :=
  ("class Crate<E> \x7b <T extends E> void pack(T t) throws Full \x7b " ++
    "class Label extends Tag \x7b T of; \x7d Map<Label, Item[]> all; \x7d \x7d").toList

def crateReader : Reader :=
  { source := crate, path := ⟨"Crate.java"⟩, provenance := { module := "m" }, package := none
    frames := [{ id := ⟨"Crate"⟩, index := 0, kind := .classType, header := [], params := ["E"] }] }

/-- Of the eight mentions of types in the method those four are found that name neither a type
parameter nor the class. -/
theorem crate_types_scoped :
    ∃ n m b, n.kind = .methodDeclaration ∧ m.text crate = "Item" ∧ n.child? .body = some b ∧
      (crateReader.callableSites n).map (·.kind) = [.throws, .typeUse, .typeUse, .typeUse] ∧
      Found crate (crateReader.callableSites n) m ∧
      (∃ new, crateReader.callableSites n = [] ++ new ∧ ∀ s ∈ new, ¬ Begins "T" s) ∧
      ∃ before d new, LocalType crate d "Label" ∧
        (visit crate b { hidden := [] }).sites =
          (visitParts crate true before (Walk.enter { hidden := [] })).sites ++ new ∧
        ∀ s ∈ new, ¬ Begins "Label" s := by
  have hmethod : ∃ n ∈ Node.nodesIn (parse crate).children, n.kind = .methodDeclaration ∧
      (crateReader.callableSites n).map (·.kind) = [.throws, .typeUse, .typeUse, .typeUse] ∧
      crateReader.typeParameterNames n = ["T"] ∧
      ∀ d ∈ Node.nodesIn n.children,
        ¬ (d.kind ∈ localTypeKinds ∧ textOfRole crate .name d.children = some "Item") := by
    decide +kernel
  have hbody : ∀ n ∈ Node.nodesIn (parse crate).children, n.kind = .methodDeclaration →
      ∃ b ∈ n.child? .body, b.kind = .block ∧
        (∃ d ∈ b.children, d.role ≠ some .name ∧ d.kind ∈ localTypeKinds ∧
          textOfRole crate .name d.children = some "Label") ∧
        ∃ v ∈ b.children, v.kind = .localVariableDeclaration ∧ v.role ≠ some .name ∧
          (v.child? .type).map (·.kind) = some .genericType := by decide +kernel
  have htype : ∀ v ∈ Node.nodesIn (parse crate).children, v.kind = .localVariableDeclaration →
      ∃ t ∈ v.child? .type, ∃ as ∈ t.named, as.kind = .typeArguments ∧
        ∃ a ∈ as.named, a.kind = .arrayType ∧ ∃ m ∈ a.child? .element,
          m.kind = .typeIdentifier ∧ m.text crate = "Item" := by decide +kernel
  obtain ⟨n, hn, hkind, hsites, hown, hfree⟩ := hmethod
  obtain ⟨b, hb, hblock, ⟨d, hd, hdrole, hdlocal⟩, v, hv, hvkind, hvrole, htkind⟩ :=
    hbody n hn hkind
  have hvtree : v ∈ Node.nodesIn (parse crate).children :=
    Node.nodesIn_closed (Node.nodesIn_closed hn b (Reader.child?_mem hb)) v hv
  obtain ⟨t, ht, as, has, haskind, a, ha, hakind, m, hm, hmkind, hmtext⟩ := htype v hvtree hvkind
  obtain ⟨before, after, hsplit⟩ := List.append_of_mem hd
  have hrule := types_are_scoped crate
  have hsource : crateReader.source = crate := by simp only [crateReader]
  have hwalk := (hrule.2.2.2.2.2.2 crateReader hsource n).1
  have hhidden : crateReader.frames.flatMap (·.params) ++ crateReader.typeParameterNames n =
      ["E", "T"] := by
    rw [hown]
    rfl
  rw [hhidden] at hwalk
  have htgeneric : t.kind = .genericType := by
    rw [ht] at htkind
    exact Option.some.inj htkind
  have hin : InType t m :=
    .part (by simp [htgeneric]) has
      (.part (by simp [haskind]) ha (.element hakind hm .itself))
  have hwrites : CallableWrites n t :=
    .body hb (.part (by rw [hblock]; rfl) hv (by simp [Node.isNamed, hvkind]) hvrole
      (.typed (by simp [hvkind]) ht))
  have hnameable : Nameable crate m :=
    ⟨.inl hmkind, by rw [hmtext]; decide +kernel, by rw [hmtext]; decide +kernel,
      by rw [hmtext]; decide +kernel⟩
  have hleading : leading crate m = "Item" := by
    unfold leading
    rw [hmtext]
    decide +kernel
  have hfound := (hrule.2.1 n).finds { hidden := ["E", "T"] } t m hwrites hin hnameable
    (by rw [hleading]; decide) fun d hd hlocal => hfree d hd (hleading ▸ hlocal)
  have hparam := (hrule.2.1 n).hides { hidden := ["E", "T"] } "T" (by decide)
  obtain ⟨new, hnew, hlabel⟩ := hrule.2.2.2.2.2.1 b d before after "Label" { hidden := [] }
    (by simp [framedKinds, hblock]) hsplit hdrole hdlocal
  rw [← hwalk] at hfound hparam
  exact ⟨n, m, b, hkind, hmtext, hb, hsites, hfound, hparam, before, d, new, hdlocal, hnew, hlabel⟩

end Carve.Java
