import Carve.Proofs.Testing.Draft
import Carve.Testing.Skeleton

/-!
# Skeletons read back as drafts

A skeleton is a frame with four blanks. Filling a blank changes nothing else of the frame, since
what is filled in brings no new blank, and reading passes the names by: they stand in the middle of
their lines.
-/

namespace Carve.Testing

open Text

namespace Skeleton

variable {p v test method plain : List Char}

def importLines : Junit → List Char
  | .four => "import org.junit.Test;\n\nimport static org.junit.Assert.assertNotNull;\n".toList
  | .five =>
    "import org.junit.jupiter.api.Test;\n\n".toList ++
      "import static org.junit.jupiter.api.Assertions.assertNotNull;\n".toList

def header : Junit → List Char
  | .four => "public class".toList
  | .five => "class".toList

def inside : Junit → List Char
  | .four => "\x7b\n\n    @Test\n    public void".toList
  | .five => "\x7b\n\n    @Test\n    void".toList

def remark : List Char := ") \x7b\n        // Arrange, act and assert against".toList

def check : List Char := "\n        assertNotNull".toList

def closing : List Char := "class);\n    \x7d\n\x7d".toList

def pieces (junit : Junit) : List (List Char) :=
  [importLines junit, header junit, inside junit, remark, check, closing]

/-- The text around the blanks of a class. Each blank stands between characters that no blank
has. -/
def frame (junit : Junit) (test method plain : List Char) : List Char :=
  importLines junit ++ '\n' :: (header junit ++ ' ' :: (test ++ ' ' :: (inside junit ++ ' ' ::
    (method ++ '(' :: (remark ++ ' ' :: (plain ++ '.' :: (check ++ '(' :: (plain ++
      '.' :: closing))))))))

def packaged (package text : List Char) : List Char :=
  Draft.packageWord ++ ' ' :: (package ++ ';' :: '\n' :: '\n' :: text)

/-! The texts are made lists of characters by `String.toList_ofList`, which spares decoding them. -/

set_option maxRecDepth 2000 in
theorem body_toList (junit : Junit) : (body junit).toList =
    frame junit (blank "TEST_CLASS").toList (blank "METHOD").toList (blank "CLASS").toList ++
      ['\n'] := by
  unfold body imports access frame importLines header inside remark check closing
  cases junit <;> (repeat rw [String.toList_append]) <;> (repeat rw [String.toList_ofList]) <;> rfl

theorem pieces_bare (junit : Junit) : ∀ piece ∈ pieces junit, '$' ∉ piece ∧ '\x60' ∉ piece := by
  unfold pieces importLines header inside remark check closing
  cases junit <;> dsimp only <;> (repeat rw [String.toList_ofList]) <;> decide

theorem packageLine_toList (text : String) :
    (packageLine ++ text).toList = packaged (blank "PACKAGE").toList text.toList := by
  rw [String.toList_append]
  rfl

structure IsBlank (p : List Char) : Prop where
  dollar : '$' ∈ p
  brace : '\x7b' ∈ p
  bare : ∀ d ∈ [' ', '(', '.', ';', '\n'], d ∉ p

instance (p : List Char) : Decidable (IsBlank p) :=
  decidable_of_iff ('$' ∈ p ∧ '\x7b' ∈ p ∧ ∀ d ∈ [' ', '(', '.', ';', '\n'], d ∉ p)
    ⟨fun ⟨h, i, j⟩ => ⟨h, i, j⟩, fun ⟨h, i, j⟩ => ⟨h, i, j⟩⟩

theorem IsBlank.replace_append (hp : IsBlank p) {d : Char}
    (hd : d ∈ [' ', '(', '.', ';', '\n']) (xs ys : List Char) :
    replaceAll p v (xs ++ d :: ys) = replaceAll p v xs ++ d :: replaceAll p v ys :=
  replaceAll_append_cons (List.ne_nil_of_mem hp.dollar) (hp.bare d hd) xs ys

/-- Filling passes the frame by. -/
theorem replace_frame (hp : IsBlank p) (junit : Junit) (test method plain : List Char) :
    replaceAll p v (frame junit test method plain ++ ['\n']) =
      frame junit (replaceAll p v test) (replaceAll p v method) (replaceAll p v plain) ++
        ['\n'] := by
  have hspace := hp.replace_append (v := v) (d := ' ') (by decide)
  have hparen := hp.replace_append (v := v) (d := '(') (by decide)
  have hdot := hp.replace_append (v := v) (d := '.') (by decide)
  have hfeed := hp.replace_append (v := v) (d := '\n') (by decide)
  have hkeep : ∀ {text : List Char}, '$' ∉ text → replaceAll p v text = text :=
    replaceAll_of_lacking hp.dollar
  have hpieces := fun piece hmem => hkeep (pieces_bare junit piece hmem).1
  simp only [pieces, List.forall_mem_cons] at hpieces
  obtain ⟨himports, hheader, hinside, hremark, hcheck, hclosing, -⟩ := hpieces
  unfold frame
  rw [hfeed]
  simp only [hfeed, hspace, hparen, hdot, himports, hheader, hinside, hremark, hcheck, hclosing,
    hkeep (List.not_mem_nil (a := '$'))]

theorem replace_packaged (hp : IsBlank p) (package text : List Char) :
    replaceAll p v (packaged package text) =
      packaged (replaceAll p v package) (replaceAll p v text) := by
  have hfeed : ∀ ys, replaceAll p v ('\n' :: ys) = '\n' :: replaceAll p v ys := by
    intro ys
    have h := hp.replace_append (v := v) (d := '\n') (by decide) [] ys
    rwa [replaceAll_of_lacking hp.dollar List.not_mem_nil] at h
  unfold packaged
  rw [hp.replace_append (by decide), hp.replace_append (by decide), hfeed, hfeed,
    replaceAll_of_lacking hp.dollar (by decide)]

def blanks : List String := ["PACKAGE", "TEST_CLASS", "CLASS", "METHOD"]

theorem isBlank_blank {a : String} (ha : a ∈ blanks) : IsBlank (blank a).toList := by
  revert a
  decide

theorem replace_self {a : String} (ha : a ∈ blanks) :
    replaceAll (blank a).toList v (blank a).toList = v :=
  replaceAll_self (List.ne_nil_of_mem (isBlank_blank ha).dollar)

theorem replace_other {a b : String} (ha : a ∈ blanks) (hb : b ∈ blanks) (hne : a ≠ b) :
    replaceAll (blank a).toList v (blank b).toList = (blank b).toList := by
  have hnone : ∀ a ∈ blanks, ∀ b ∈ blanks, a ≠ b →
      breakOn (blank a).toList (blank b).toList = none := by
    decide
  exact replaceAll_of_none (hnone a ha b hb hne)

end Skeleton

namespace Target

/-- The class is called by an identifier, the package by words joined by dots; the method may be
called by anything that neither ends a line nor closes a fence. -/
structure Nameable (t : Target) : Prop where
  className : Draft.IsIdentifier t.className.toList
  package : ∀ p ∈ t.package, Draft.IsPackage p.toList
  methodName : ∀ m ∈ t.methodName, '\n' ∉ m.toList ∧ '\x60' ∉ m.toList

variable {t : Target}

theorem Nameable.testClass (h : t.Nameable) : Draft.IsIdentifier t.testClass.toList := by
  obtain ⟨c, hc, hstart⟩ := h.className.start
  have htail : ∀ c ∈ "Test".toList, Draft.IsLetter c := by decide
  rw [Target.testClass, String.toList_append]
  refine ⟨⟨c, ?_, hstart⟩, ?_⟩
  · rw [List.head?_append, hc]
    rfl
  · intro d hd
    exact (List.mem_append.mp hd).elim (h.className.letters d) (htail d)

theorem Nameable.not_mem_testName (h : t.Nameable) {d : Char} (hd : d ∈ ['\n', '\x60']) :
    d ∉ (Skeleton.testName t).toList := by
  have hkeeps : KeepsOff d.toNat ∧ d.toNat ≠ 0 := by
    rcases List.mem_pair.mp hd with rfl | rfl
    · exact ⟨keepsOff_lineFeed, by decide⟩
    · exact ⟨keepsOff_grave, by decide⟩
  have hwords : d ∉ "testCreation".toList ∧ d ∉ "test".toList := by
    rcases List.mem_pair.mp hd with rfl | rfl <;> exact ⟨by decide, by decide⟩
  unfold Skeleton.testName
  split
  · rename_i m hm
    have hname : d ∉ m.toList := by
      rcases List.mem_pair.mp hd with rfl | rfl
      · exact (h.methodName m hm).1
      · exact (h.methodName m hm).2
    rw [String.toList_append, List.mem_append, not_or]
    exact ⟨hwords.2, not_mem_capitalize hkeeps.1 hkeeps.2 hname⟩
  · exact hwords.1

end Target

namespace Skeleton

variable {t : Target}

/-- The skeleton without its last line feed. -/
def text (t : Target) (junit : Junit) : List Char :=
  let code := frame junit t.testClass.toList (testName t).toList t.className.toList
  match t.package with
  | some p => packaged p.toList code
  | none => code

theorem not_mem_of_isIdentifier {name : List Char} (h : Draft.IsIdentifier name) {d : Char}
    (hd : ¬ Draft.IsLetter d) : d ∉ name :=
  fun hmem => hd (h.letters d hmem)

theorem not_mem_of_isPackage {name : List Char} (h : Draft.IsPackage name) {d : Char}
    (hd : ¬ (d = '.' ∨ d.isAlphanum = true ∨ d = '_')) : d ∉ name :=
  fun hmem => hd (h.chars d hmem)

theorem fill_toList (h : t.Nameable) (junit : Junit) :
    (fill t junit).toList = text t junit ++ ['\n'] := by
  have hP : "PACKAGE" ∈ blanks := by decide
  have hT : "TEST_CLASS" ∈ blanks := by decide
  have hC : "CLASS" ∈ blanks := by decide
  have hM : "METHOD" ∈ blanks := by decide
  have hname : ∀ {a : String}, a ∈ blanks → ∀ {v name : List Char}, '\x7b' ∉ name →
      replaceAll (blank a).toList v name = name :=
    fun ha => replaceAll_of_lacking (isBlank_blank ha).brace
  have htest := not_mem_of_isIdentifier h.testClass (d := '\x7b') (by decide)
  have hplain := not_mem_of_isIdentifier h.className (d := '\x7b') (by decide)
  have hclass : replaceAll (blank "METHOD").toList (testName t).toList
      (replaceAll (blank "CLASS").toList t.className.toList
        (replaceAll (blank "TEST_CLASS").toList t.testClass.toList (body junit).toList)) =
      frame junit t.testClass.toList (testName t).toList t.className.toList ++ ['\n'] := by
    rw [body_toList, replace_frame (isBlank_blank hT), replace_frame (isBlank_blank hC),
      replace_frame (isBlank_blank hM)]
    rw [replace_self hT, hname hC htest, hname hM htest]
    rw [replace_other hT hM (by decide), replace_other hC hM (by decide), replace_self hM]
    rw [replace_other hT hC (by decide), replace_self hC, hname hM hplain]
  unfold fill text
  cases hpackage : t.package with
  | none =>
    rw [replaced_toList, replaced_toList, replaced_toList]
    exact hclass
  | some package =>
    have hbody : ∀ v, replaceAll (blank "PACKAGE").toList v (body junit).toList =
        (body junit).toList := by
      intro v
      rw [body_toList, replace_frame (isBlank_blank hP), replace_other hP hT (by decide),
        replace_other hP hM (by decide), replace_other hP hC (by decide)]
    have hbrace := not_mem_of_isPackage (h.package package hpackage) (d := '\x7b') (by decide)
    rw [replaced_toList, replaced_toList, replaced_toList, replaced_toList, packageLine_toList]
    rw [replace_packaged (isBlank_blank hP), replace_packaged (isBlank_blank hT),
      replace_packaged (isBlank_blank hC), replace_packaged (isBlank_blank hM), hbody, hclass]
    rw [replace_self hP, hname hT hbrace, hname hC hbrace, hname hM hbrace]
    simp only [packaged, List.append_assoc, List.cons_append]

/-! Reading the text back. -/

theorem not_mem_text (h : t.Nameable) (junit : Junit) : '\x60' ∉ text t junit := by
  have hpieces := fun piece hmem => (pieces_bare junit piece hmem).2
  simp only [pieces, List.forall_mem_cons] at hpieces
  obtain ⟨himports, hheader, hinside, hremark, hcheck, hclosing, -⟩ := hpieces
  have htest := not_mem_of_isIdentifier h.testClass (d := '\x60') (by decide)
  have hplain := not_mem_of_isIdentifier h.className (d := '\x60') (by decide)
  have hmethod := h.not_mem_testName (d := '\x60') (by decide)
  have hframe : '\x60' ∉ frame junit t.testClass.toList (testName t).toList t.className.toList := by
    simp only [frame, List.mem_append, List.mem_cons, himports, hheader, hinside, hremark, hcheck,
      hclosing, htest, hplain, hmethod]
    decide
  unfold text
  split
  · rename_i package hpackage
    have hnone := not_mem_of_isPackage (h.package package hpackage) (d := '\x60') (by decide)
    simp only [packaged, List.mem_append, List.mem_cons, hnone, hframe]
    decide
  · exact hframe

theorem trim_text (t : Target) (junit : Junit) :
    trim (text t junit ++ ['\n']) = text t junit := by
  have hclosing : closing.getLast? = some '\x7d' := by decide
  have hlast : (text t junit).getLast? = some '\x7d' := by
    unfold text
    split <;>
      simp [packaged, frame, List.getLast?_append, List.getLast?_cons, hclosing]
  have hhead : ∃ c, (text t junit).head? = some c ∧ isBlank c = false := by
    unfold text
    split
    · exact ⟨'p', rfl, rfl⟩
    · exact ⟨'i', by cases junit <;> rfl, rfl⟩
  obtain ⟨c, hc, hblank⟩ := hhead
  exact trim_lineFeed hc hblank hlast rfl

theorem codeOf_answer (h : t.Nameable) (junit : Junit) :
    Draft.codeOf (answer t junit).toList = text t junit := by
  have hgrave : '\x60' ∉ text t junit ++ ['\n'] := by
    simpa using not_mem_text h junit
  have hanswer : (answer t junit).toList =
      Draft.opened ++ ((text t junit ++ ['\n']) ++ (Draft.fence ++ ['\n'])) := by
    rw [answer, String.toList_append, String.toList_append, String.toList_append,
      String.toList_append, fill_toList h]
    simp only [List.append_assoc]
    rfl
  rw [hanswer, Draft.codeOf_fenced hgrave, trim_text]

/-- The class is found from the empty line before its header. -/
theorem className?_frame (htest : Draft.IsIdentifier test) (junit : Junit) :
    Draft.className? (frame junit test method plain) = some test := by
  have himports : ∀ cs, Draft.firstAtLine Draft.classAt? true (importLines junit ++ cs) =
      Draft.firstAtLine Draft.classAt? true cs := by
    intro cs
    unfold importLines
    cases junit <;> dsimp only <;> (repeat rw [String.toList_ofList]) <;> rfl
  have hheader : ∀ cs, Draft.classAt? ('\n' :: (header junit ++ [' ']) ++ cs) =
      Draft.leadingName? cs := by
    intro cs
    cases junit <;> rfl
  unfold Draft.className? frame
  rw [himports]
  have hread := Draft.classAt?_header htest hheader
  simp only [List.cons_append, List.append_assoc, List.nil_append] at hread
  exact Draft.firstAtLine_here (hread _)

theorem className?_packaged {package : List Char} (hpackage : '\n' ∉ package)
    (htest : Draft.IsIdentifier test) (junit : Junit) :
    Draft.className? (packaged package (frame junit test method plain)) = some test := by
  have hword : ∀ cs, Draft.firstAtLine Draft.classAt? true (Draft.packageWord ++ ' ' :: cs) =
      Draft.firstAtLine Draft.classAt? false cs := fun _ => rfl
  have himport : ∃ more, importLines junit = 'i' :: more := by
    cases junit <;> exact ⟨_, rfl⟩
  obtain ⟨more, himport⟩ := himport
  have hskip : ∀ cs, Draft.firstAtLine Draft.classAt? false
      (';' :: '\n' :: '\n' :: (importLines junit ++ cs)) =
        Draft.firstAtLine Draft.classAt? true (importLines junit ++ cs) := by
    intro cs
    rw [himport]
    rfl
  rw [← className?_frame htest junit]
  unfold Draft.className? packaged frame
  rw [hword, Draft.firstAtLine_within hpackage, hskip]

theorem package?_frame (htest : '\n' ∉ test) (hmethod : '\n' ∉ method) (hplain : '\n' ∉ plain)
    (junit : Junit) : Draft.package? (frame junit test method plain) = none := by
  have himports : ∀ cs, Draft.firstAtLine Draft.packageAt? true
      (importLines junit ++ '\n' :: (header junit ++ ' ' :: cs)) =
        Draft.firstAtLine Draft.packageAt? false cs := by
    intro cs
    unfold importLines
    cases junit <;> dsimp only <;> (repeat rw [String.toList_ofList]) <;> rfl
  have hinside : ∀ cs, Draft.firstAtLine Draft.packageAt? false
      (' ' :: (inside junit ++ ' ' :: cs)) = Draft.firstAtLine Draft.packageAt? false cs := by
    intro cs
    cases junit <;> rfl
  have hremark : ∀ cs, Draft.firstAtLine Draft.packageAt? false
      ('(' :: (remark ++ ' ' :: cs)) = Draft.firstAtLine Draft.packageAt? false cs := by
    intro cs
    unfold remark
    rw [String.toList_ofList]
    rfl
  have hcheck : ∀ cs, Draft.firstAtLine Draft.packageAt? false
      ('.' :: (check ++ '(' :: cs)) = Draft.firstAtLine Draft.packageAt? false cs := by
    intro cs
    unfold check
    rw [String.toList_ofList]
    rfl
  have hclosing : Draft.firstAtLine Draft.packageAt? false ('.' :: closing) = none := rfl
  unfold Draft.package? frame
  rw [himports, Draft.firstAtLine_within htest, hinside, Draft.firstAtLine_within hmethod, hremark,
    Draft.firstAtLine_within hplain, hcheck, Draft.firstAtLine_within hplain, hclosing]

theorem package?_packaged {package : List Char} (h : Draft.IsPackage package) (text : List Char) :
    Draft.package? (packaged package text) = some package :=
  Draft.firstAtLine_here (Draft.packageAt?_line h _)

theorem names_text (h : t.Nameable) (junit : Junit) :
    Draft.className? (text t junit) = some t.testClass.toList ∧
      Draft.package? (text t junit) = t.package.map String.toList := by
  have htest := not_mem_of_isIdentifier h.testClass (d := '\n') (by decide)
  have hplain := not_mem_of_isIdentifier h.className (d := '\n') (by decide)
  have hmethod := h.not_mem_testName (d := '\n') (by decide)
  unfold text
  cases hpackage : t.package with
  | none => exact ⟨className?_frame h.testClass junit, package?_frame htest hmethod hplain junit⟩
  | some package =>
    have hname := h.package package hpackage
    have hfeed := not_mem_of_isPackage hname (d := '\n') (by decide)
    exact ⟨className?_packaged hfeed h.testClass junit, package?_packaged hname _⟩

end Skeleton

namespace Draft

def packageDirs (package : Option String) : List String :=
  match package with
  | some p => parts '.' p
  | none => []

theorem pathOf_eq {package : Option String} (hpackage : ∀ p ∈ package, IsPackage p.toList)
    {name : String} (hname : IsIdentifier name.toList) :
    pathOf package name =
      ⟨joined "/" ("src/test/java" :: (packageDirs package ++ [name ++ ".java"]))⟩ := by
  have hdirs : ∀ s ∈ packageDirs package, s ≠ "" ∧ '/' ∉ s.toList := by
    unfold packageDirs
    intro s hs
    split at hs
    · rename_i p 
      obtain ⟨part, hpart, rfl⟩ := List.mem_map.mp hs
      obtain ⟨hne, hletters⟩ := hpackage p rfl part hpart
      rw [String.toList_ofList]
      refine ⟨fun hempty => hne (by simpa using congrArg String.toList hempty), fun hslash => ?_⟩
      exact absurd (hletters '/' hslash) (by decide)
    · cases hs
  have hfile : name ++ ".java" ≠ "" ∧ '/' ∉ (name ++ ".java").toList := by
    rw [ne_eq, ← String.toList_eq_nil_iff, String.toList_append, List.append_eq_nil_iff,
      List.mem_append]
    refine ⟨fun hnil => absurd hnil.2 (by decide), ?_⟩
    rintro (hslash | hslash)
    · exact absurd (hname.letters '/' hslash) (by decide)
    · exact absurd hslash (by decide)
  have hfold : pathOf package name = (packageDirs package ++ [name ++ ".java"]).foldl
      (fun (p : Path) s => p.join ⟨s⟩) testRoot := by
    rw [List.foldl_append]
    cases package <;> rfl
  rw [hfold]
  refine Path.foldl_join_text (by decide) (by decide) fun s hs => ?_
  rcases List.mem_append.mp hs with hs | hs
  · exact hdirs s hs
  · rw [List.mem_singleton.mp hs]
    exact hfile

end Draft

/-- A skeleton reads back as the test that it was written for. -/
theorem ofAnswer_answer {t : Target} (h : t.Nameable) (junit : Junit) :
    Draft.ofAnswer (Skeleton.answer t junit) = .ok
      { package := t.package
        className := t.testClass
        source := Skeleton.fill t junit
        relativePath := ⟨joined "/"
          ("src/test/java" :: (Draft.packageDirs t.package ++ [t.testClass ++ ".java"]))⟩ } := by
  obtain ⟨hclass, hpackage⟩ := Skeleton.names_text h junit
  have hsource : String.ofList (Skeleton.text t junit) ++ "\n" = Skeleton.fill t junit := by
    rw [← String.toList_inj, Skeleton.fill_toList h, String.toList_append, String.toList_ofList]
    rfl
  have hname : (t.package.map String.toList).map String.ofList = t.package := by
    cases t.package <;> simp
  unfold Draft.ofAnswer
  simp only [Skeleton.codeOf_answer h, hclass, hpackage, hname, hsource, String.ofList_toList,
    Draft.pathOf_eq h.package h.testClass]

def orderTarget : Target where
  id := ⟨"com.shop.Order_$1.größe"⟩
  kind := .method
  package := some "com.shop_2"
  className := "Order_$1"
  methodName := some "größe"
  file := ⟨"src/main/java/com/shop_2/Order_$1.java"⟩

theorem orderTarget_answer :
    orderTarget.Nameable ∧ Draft.ofAnswer (Skeleton.answer orderTarget .four) = .ok
      { package := some "com.shop_2"
        className := "Order_$1Test"
        source := Skeleton.fill orderTarget .four
        relativePath := ⟨"src/test/java/com/shop_2/Order_$1Test.java"⟩ } := by
  have hnames : orderTarget.Nameable := by
    refine ⟨⟨⟨'O', rfl, rfl⟩, by decide⟩, ?_, ?_⟩
    · rintro p ⟨rfl⟩
      decide
    · rintro m ⟨rfl⟩
      decide
  exact ⟨hnames, ofAnswer_answer hnames .four⟩

end Carve.Testing
