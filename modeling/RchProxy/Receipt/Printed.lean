import RchProxy.Framing.Grammar
import RchProxy.Parser.Subtype
import RchProxy.Receipt.Amounts
import RchProxy.Receipt.Isolation
import RchProxy.Receipt.Tidy

/-!
# A printed receipt is read back

A management receipt that prints one line for each item and a total gives the items back in order,
and the total. A line is told apart by how it starts, so this holds of descriptions that do not start
with the word of another line (`printed_receipt_read_back`).
-/

namespace RchProxy

open Py Lib Lib.Regex Lib.Spend

/-! ## Lines -/

/-- The payload of a printable line. -/
def printableLine (text : Text) : Text := "=\"/(".toList ++ (text ++ [')'])

/-- The text of an item. -/
def itemText (item : Text × Nat) : Text := item.1 ++ ' ' :: formatCents item.2

/-- The text of the total. -/
def totalText (cents : Nat) : Text := "TOT ".toList ++ formatCents cents

/-- The payloads of a receipt with one line for each item, and a total. -/
def printedReceipt (items : List (Text × Nat)) : List Text :=
  "=o".toList :: (items.map fun item => printableLine (itemText item)) ++
    [printableLine (totalText (items.map (·.2)).sum), "=o".toList]

/-- A description that is printed before an amount. -/
structure IsDescription (d : Text) : Prop where
  ne_nil : d ≠ []
  first : ∀ c, d.head? = some c → isSpace c = false
  last : ∀ c, d.getLast? = some c → isSpace c = false
  not_digit : ∀ c ∈ d, isDecimal c = false
  not_newline : '\n' ∉ d

/-- The description does not start, in upper case, with the word of another line. -/
def IsItemName (d : Text) : Prop :=
  startsWith (upper d) "RESTO".toList = false ∧ startsWith (upper d) "CONTANTI".toList = false ∧
    startsWith (upper d) "TOT".toList = false

theorem all_not_space_iff (c? : Option Char) :
    c?.all (!isSpace ·) = true ↔ ∀ c, c? = some c → isSpace c = false := by
  cases c? <;> simp

instance (d : Text) : Decidable (IsDescription d) :=
  decidable_of_iff (d ≠ [] ∧ d.head?.all (!isSpace ·) = true ∧ d.getLast?.all (!isSpace ·) = true ∧
      d.all (!isDecimal ·) = true ∧ '\n' ∉ d) <| by
    rw [all_not_space_iff, all_not_space_iff]
    exact ⟨fun ⟨h₁, h₂, h₃, h₄, h₅⟩ => ⟨h₁, h₂, h₃, by simpa using h₄, h₅⟩,
      fun h => ⟨h.ne_nil, h.first, h.last, by simpa using h.not_digit, h.not_newline⟩⟩

instance (d : Text) : Decidable (IsItemName d) := inferInstanceAs (Decidable (_ ∧ _))

theorem matchManagementLine_printable {text : Text} (h : '\n' ∉ text) :
    matchManagementLine (printableLine text) = some { text := text, style := none } := by
  have hline : '\n' ∉ text ++ [')'] := by simpa using h
  let c : Match := Cursor.past ⟨[], printableLine text, []⟩ "=\"/(".toList (text ++ [')'])
  let d : Match := c.past text [')']
  let e : Match := Cursor.past { d with groups := (.text, c.textTo d) :: d.groups } [')'] []
  have hread : e ∈ Pattern.managementLine.run ⟨[], printableLine text, []⟩ := by
    refine mem_run_seq.mpr ⟨_, mem_run_look.mpr ⟨rfl, rfl⟩, mem_run_lit.mpr ⟨_, rfl,
      mem_run_seq.mpr ⟨_, mem_run_group.mpr ⟨d, mem_run_star_one.mpr ⟨text, _, rfl, ?_, rfl⟩, rfl⟩,
        mem_run_lit.mpr ⟨[], rfl, mem_run_seq.mpr ⟨_, mem_run_opt.mpr (.inr rfl),
          mem_run_look.mpr ⟨rfl, rfl⟩⟩⟩⟩⟩⟩
    intro x hx
    exact bne_iff_ne.mpr fun heq => h (heq ▸ hx)
  refine map_matchStart_eq hread fun e he => ?_
  obtain ⟨u, hu, he⟩ := mem_run_lit.mp (run_look he)
  obtain ⟨c₁, hgroup, he⟩ := mem_run_seq.mp he
  obtain ⟨d, hd, rfl⟩ := mem_run_group.mp hgroup
  obtain ⟨s, v, hv, -, rfl⟩ := mem_run_star_one.mp hd
  obtain ⟨w, hw, he⟩ := mem_run_lit.mp he
  obtain ⟨c₂, hstyle, he⟩ := mem_run_seq.mp he
  obtain ⟨hend, rfl⟩ := mem_run_look.mp he
  obtain rfl : u = text ++ [')'] := (List.append_cancel_left hu).symm
  have hv : text ++ [')'] = s ++ (')' :: w) := hv.trans (congrArg (s ++ ·) hw)
  have hnil : ∀ front after, text ++ [')'] = front ++ after →
      (after == [] || after == ['\n']) = true → after = [] := by
    intro front after heq hafter
    rcases Bool.or_eq_true_iff.mp hafter with hafter | hafter
    · exact eq_of_beq hafter
    · exact absurd (by rw [heq, eq_of_beq hafter]; simp) hline
  rcases mem_run_opt.mp hstyle with hstyle | rfl
  · -- a style would end the payload with a digit
    obtain ⟨x, hx, hnumber⟩ := mem_run_lit.mp hstyle
    obtain ⟨c₃, hc₃, rfl⟩ := mem_run_group.mp hnumber
    obtain ⟨digits, after, hafter, hne, hdigits, rfl⟩ := mem_run_plus_one.mp hc₃
    have hw : w = "/*".toList ++ (digits ++ after) := hx.trans (congrArg _ hafter)
    rw [hw] at hv
    obtain rfl : after = [] := hnil (s ++ ')' :: ("/*".toList ++ digits)) after (by simp [hv]) hend
    have hlast := congrArg List.getLast? hv
    rw [List.getLast?_concat, List.append_nil, ← List.cons_append, ← List.append_assoc,
      List.getLast?_append_of_ne_nil _ hne] at hlast
    exact absurd (hdigits _ (List.mem_of_getLast? hlast.symm)) (by decide)
  · obtain rfl : w = [] := hnil (s ++ [')']) w (by simp [hv]) hend
    obtain rfl : text = s := List.append_inj_left' hv rfl
    exact congrArg (TextCommand.mk · none) (Cursor.textTo_of_after hv hw)

/-! ## Items -/

section
variable {d whole fraction : Text}

/-- A line is cut in one way only: into a text, white space, and a text that starts like an
amount. -/
theorem item_cut (hd : IsDescription d) (h : IsAmount [] whole fraction) {s sp w sign rest : Text}
    {x digit : Char} (heq : d ++ ' ' :: amountText [] whole fraction = s ++ x :: (sp ++ w))
    (hne : sp ≠ []) (hsp : ∀ c ∈ sp, isSpace c = true)
    (hw : w = sign ++ digit :: rest) (hsign : IsSign sign) (hdigit : isDecimal digit = true) :
    d = s ++ [x] ∧ w = amountText [] whole fraction := by
  have hfront : ∀ c ∈ d ++ [' '], isDecimal c = false := by
    intro c hc
    rcases List.mem_append.mp hc with hc | hc
    · exact hd.not_digit c hc
    · rw [List.mem_singleton.mp hc]
      decide
  have heq' : (d ++ [' ']) ++ amountText [] whole fraction = (s ++ [x] ++ sp) ++ w := by
    simpa using heq
  obtain ⟨hcut, hamount⟩ : d ++ [' '] = s ++ [x] ++ sp ∧ amountText [] whole fraction = w := by
    rcases List.append_eq_append_iff.mp heq' with ⟨a, ha, hb⟩ | ⟨a, ha, hb⟩
    · -- no white space in the amount
      rcases List.eq_nil_or_concat a with rfl | ⟨a', y, hy⟩
      · exact ⟨by simpa using ha.symm, hb⟩
      · rw [List.concat_eq_append] at hy
        have hlast := congrArg List.getLast? ha
        rw [List.getLast?_append_of_ne_nil _ hne, hy, ← List.append_assoc, List.getLast?_concat]
          at hlast
        have hspace := hsp y (List.mem_of_getLast? hlast)
        rw [h.not_space (c := y) (by rw [hb, hy]; simp)] at hspace
        cases hspace
    · -- no digit before the amount
      cases a with
      | nil => exact ⟨by simpa using ha, by simpa using hb.symm⟩
      | cons y a =>
        have hmem : ∀ z ∈ y :: a, isDecimal z = false :=
          fun z hz => hfront z (by rw [ha]; exact List.mem_append_right _ hz)
        have hcases : digit = y ∨
            (y = '+' ∨ y = '-') ∧ digit :: rest = a ++ amountText [] whole fraction := by
          rw [hw] at hb
          rcases hsign with rfl | rfl | rfl
          · exact .inl (List.cons.inj hb).1
          · exact .inr ⟨.inl (List.cons.inj hb).1.symm, (List.cons.inj hb).2⟩
          · exact .inr ⟨.inr (List.cons.inj hb).1.symm, (List.cons.inj hb).2⟩
        rcases hcases with rfl | ⟨hy, hrest⟩
        · rw [hmem _ List.mem_cons_self] at hdigit
          cases hdigit
        · cases a with
          | nil =>
            have hspace : ' ' = y := by
              have hlast := congrArg List.getLast? ha
              rw [List.getLast?_concat, List.getLast?_concat] at hlast
              exact Option.some_inj.mp hlast
            subst hspace
            exact absurd hy (by decide)
          | cons z a =>
            rw [(List.cons.inj hrest).1, hmem z (by simp)] at hdigit
            cases hdigit
  refine ⟨?_, hamount.symm⟩
  -- the white space is the one blank
  rcases List.eq_nil_or_concat sp with rfl | ⟨sp', y, hy⟩
  · exact absurd rfl hne
  rw [List.concat_eq_append] at hy
  rw [hy, ← List.append_assoc] at hcut
  have hd' : d = s ++ [x] ++ sp' := List.append_inj_left' hcut rfl
  rcases List.eq_nil_or_concat sp' with rfl | ⟨sp'', z, hz⟩
  · rw [hd', List.append_nil]
  · rw [List.concat_eq_append] at hz
    have hspace := hsp z (by rw [hy, hz]; simp)
    rw [hd.last z (by rw [hd', hz, ← List.append_assoc, List.getLast?_concat])] at hspace
    cases hspace

/-- The item of a line that ends in an amount. -/
theorem printedItem_read (hd : IsDescription d) (h : IsAmount [] whole fraction)
    (hlen : whole.length ≤ 3) :
    ∃ m, Pattern.printedItem.matchStart (d ++ ' ' :: amountText [] whole fraction) = some m ∧
      groupText m .description = d ∧ groupText m .amount = amountText [] whole fraction ∧
      m.group .taxClass = none := by
  suffices hread : ((Pattern.printedItem.matchStart (d ++ ' ' :: amountText [] whole fraction)).map
      fun m => (groupText m .description, groupText m .amount, m.group .taxClass)) =
      some (d, amountText [] whole fraction, none) by
    obtain ⟨m, hm, heq⟩ := Option.map_eq_some_iff.mp hread
    simp only [Prod.mk.injEq] at heq
    exact ⟨m, hm, heq⟩
  obtain ⟨s, x, rfl⟩ : ∃ s x, d = s ++ [x] := by
    rcases List.eq_nil_or_concat d with rfl | ⟨s, x, hx⟩
    · exact absurd rfl hd.ne_nil
    · exact ⟨s, x, by rw [hx, List.concat_eq_append]⟩
  let amount := amountText [] whole fraction
  let c : Match := ⟨[], s ++ [x] ++ ' ' :: amount, []⟩
  let e₁ : Match := (c.past s (x :: ' ' :: amount)).past [x] (' ' :: amount)
  let e₂ : Match :=
    Cursor.past { e₁ with groups := (.description, c.textTo e₁) :: e₁.groups } [' '] amount
  let e₃ : Match := e₂.past amount []
  let e : Match := { e₃ with groups := (.amount, e₂.textTo e₃) :: e₃.groups }
  have hmem : e ∈ Pattern.printedItem.run c := by
    refine mem_run_seq.mpr ⟨c, mem_run_look.mpr ⟨rfl, rfl⟩, mem_run_seq.mpr ⟨_, mem_run_group.mpr
      ⟨e₁, mem_run_seq.mpr ⟨_, mem_run_star_one.mpr ⟨s, x :: ' ' :: amount, by simp [c], ?_, rfl⟩,
        mem_run_one.mpr ⟨x, ' ' :: amount, rfl, ?_, rfl⟩⟩, rfl⟩, mem_run_seq.mpr ⟨e₂,
          mem_run_plus_one.mpr ⟨[' '], amount, rfl, by simp, ?_, rfl⟩, mem_run_seq.mpr
            ⟨e, mem_run_group.mpr ⟨e₃, run_printedAmount h hlen (by simp [e₂, amount]), rfl⟩,
              mem_run_seq.mpr ⟨e, mem_run_opt.mpr (.inr rfl), mem_run_seq.mpr
                ⟨e, mem_run_star_one.mpr ⟨[], [], rfl, by simp, rfl⟩,
                  mem_run_look.mpr ⟨rfl, rfl⟩⟩⟩⟩⟩⟩⟩
    · intro y hy
      exact bne_iff_ne.mpr fun heq => hd.not_newline (heq ▸ List.mem_append_left _ hy)
    · rw [hd.last x (by rw [List.getLast?_concat])]
      rfl
    · intro y hy
      rw [List.mem_singleton.mp hy]
      decide
  refine map_matchStart_eq hmem fun f hf => ?_
  obtain ⟨_, hstart, hf⟩ := mem_run_seq.mp hf
  obtain ⟨-, rfl⟩ := mem_run_look.mp hstart
  obtain ⟨_, hdescription, hf⟩ := mem_run_seq.mp hf
  obtain ⟨f₁, hf₁, rfl⟩ := mem_run_group.mp hdescription
  obtain ⟨_, hs, hx⟩ := mem_run_seq.mp hf₁
  obtain ⟨u, v, huv, -, rfl⟩ := mem_run_star_one.mp hs
  obtain ⟨y, w, hyw, -, rfl⟩ := mem_run_one.mp hx
  obtain ⟨f₂, hspaces, hf⟩ := mem_run_seq.mp hf
  obtain ⟨sp, w', hw, hne, hsp, rfl⟩ := mem_run_plus_one.mp hspaces
  obtain ⟨_, hgroup, hf⟩ := mem_run_seq.mp hf
  obtain ⟨f₃, hf₃, rfl⟩ := mem_run_group.mp hgroup
  have huv : s ++ [x] ++ ' ' :: amount = u ++ v := huv
  have hyw : v = y :: w := hyw
  have hw : w = sp ++ w' := hw
  obtain ⟨sign, digits, rest, hafter, hsign, ⟨hpos, -⟩, hdigits, -⟩ := mem_run_printedAmount hf₃
  obtain ⟨digit, digits, rfl⟩ := List.exists_cons_of_ne_nil (List.length_pos_iff.mp hpos)
  have hafter : w' = sign ++ digit :: (digits ++ rest) := hafter
  rw [hyw, hw] at huv
  obtain ⟨hcut, rfl⟩ := item_cut hd h huv hne hsp hafter hsign (hdigits digit List.mem_cons_self)
  obtain ⟨-, rfl⟩ := mem_run_printedAmount_amount h rfl hf₃
  -- nothing is left behind the amount
  obtain ⟨_, htax, hf⟩ := mem_run_seq.mp hf
  obtain ⟨_, hblank, hstop⟩ := mem_run_seq.mp hf
  obtain ⟨-, rfl⟩ := mem_run_look.mp hstop
  obtain ⟨b, t, hbt, -, rfl⟩ := mem_run_star_one.mp hblank
  rcases mem_run_opt.mp htax with htax | rfl
  · obtain ⟨_, hspace, -⟩ := mem_run_seq.mp htax
    obtain ⟨b', t', hbt', hne', -⟩ := mem_run_plus_one.mp hspace
    exact absurd (List.append_eq_nil_iff.mp hbt'.symm).1 hne'
  · have hdescription : c.textTo ((c.past u v).past [y] w) = s ++ [x] := by
      rw [hcut]
      refine Cursor.textTo_of_after ?_ rfl
      rw [hw, List.append_assoc, List.singleton_append]
      exact huv
    have hamount : ∀ g : Match, g.after = amount → g.textTo (g.past amount []) = amount :=
      fun g hg => Cursor.textTo_of_after (hg.trans (List.append_nil amount).symm) rfl
    exact Prod.ext hdescription (Prod.ext (hamount _ rfl) rfl)

end

/-! ## What a line brings -/

/-- What stands behind a blank does not change how a line starts. -/
theorem startsWith_blank {s t word : Text} (hword : ' ' ∉ word) (h : startsWith s word = false) :
    startsWith (s ++ ' ' :: t) word = false := by
  refine Bool.eq_false_iff.mpr fun hstart => ?_
  rw [startsWith, List.isPrefixOf_iff_prefix] at hstart
  have hnot : ¬ word <+: s := by
    rw [← List.isPrefixOf_iff_prefix]
    exact Bool.eq_false_iff.mp h
  rcases List.prefix_or_prefix_of_prefix hstart (List.prefix_append s _) with hprefix | ⟨r, rfl⟩
  · exact hnot hprefix
  · cases r with
    | nil => exact hnot (by simp)
    | cons c r =>
      rw [List.prefix_append_right_inj] at hstart
      obtain ⟨u, hu⟩ := hstart
      exact hword (by rw [← (List.cons.inj hu).1]; simp)

/-- An amount below a thousand euros. -/
theorem formatCents_short {cents : Nat} (h : cents < 100000) : ∃ whole fraction,
    formatCents cents = amountText [] whole fraction ∧ IsAmount [] whole fraction ∧
      whole.length ≤ 3 :=
  ⟨_, _, formatCents_eq cents, formatCents_isAmount cents,
    (euros_length_le_iff cents).mpr (by omega)⟩

/-- What is read of a printed receipt. -/
def DocumentModel.readings (model : DocumentModel) :
    List (Text × Option Int) × List (Option Int) × List Payment × List Tax :=
  (model.items.map fun item => (item.description, item.amountCents),
    model.totals.map (·.amountCents), model.payments, model.taxes)

theorem managementMarks_readings (model : DocumentModel) (frame : RCHFrame) (stripped : Text) :
    (managementMarks model frame stripped).readings = model.readings := by
  unfold managementMarks
  cases Pattern.reference.search stripped <;> cases Pattern.order.matchStart stripped <;>
    simp only <;> split <;> rfl

section
variable (model : DocumentModel) (frame : RCHFrame)

/-- A line is printed and its amounts are taken, then its fields. -/
theorem applyManagementLine_spends {text : Text} {amounts : List Amount} {k n : Nat} {seen : Bool}
    {P : DocumentModel × Bool → Prop} (hamounts : Spends (amountFields text frame) k amounts)
    (hfields : ∀ model' : DocumentModel, model'.readings = model.readings → ∃ r,
      Spends (managementFields model' seen frame (strip text) amounts) n r ∧ P r) :
    ∃ r, Spends (applyManagementLine model seen frame ⟨text, none⟩) (1 + (k + n)) r ∧ P r := by
  have hmarks : ∀ model' : DocumentModel, model'.readings = model.readings →
      (managementMarks model' frame (strip text)).readings = model.readings :=
    fun model' h => (managementMarks_readings model' frame _).trans h
  let style : Bool := (none : Option Text) = some ['2']
  let line : DocumentLine :=
    { text := text
      trace := frame.trace
      bold := style
      doubleWidth := style
      doubleHeight := style }
  obtain ⟨r, hr, hP⟩ := hfields _ (hmarks { model with
    lines := model.lines ++ [line]
    amounts := model.amounts ++ amounts } rfl)
  exact ⟨r, (Spends.reserve 1 _).bind (hamounts.bind hr), hP⟩

/-- The amount of a line that ends in one. -/
theorem amountFields_spends {front : Text} (hfront : ∀ c ∈ front, isDecimal c = false)
    (hlast : ∀ c, front.getLast? = some c → c ≠ '+' ∧ c ≠ '-') {cents : Nat}
    (hcents : cents < 100000) :
    Spends (amountFields (front ++ formatCents cents) frame) 1
      [{ raw := formatCents cents, cents := cents, source := frame.source }] :=
  fun m h => amountFields_formatCents hfront hlast (by omega) frame m h

/-- The line of an item brings the item. -/
theorem applyManagementLine_item {item : Text × Nat} (hd : IsDescription item.1)
    (hplain : IsItemName item.1) (hcents : item.2 < 100000) :
    ∃ r, Spends (applyManagementLine model false frame ⟨itemText item, none⟩) 4 r ∧
      r.2 = false ∧
      r.1.readings = (model.readings.1 ++ [(item.1, some (item.2 : Int))], model.readings.2) := by
  have htext : itemText item = item.1 ++ [' '] ++ formatCents item.2 := by simp [itemText]
  have hamounts : Spends (amountFields (itemText item) frame) 1
      [{ raw := formatCents item.2, cents := item.2, source := frame.source }] := by
    rw [htext]
    refine amountFields_spends frame ?_ ?_ hcents
    · intro c hc
      rcases List.mem_append.mp hc with hc | hc
      · exact hd.not_digit c hc
      · rw [List.mem_singleton.mp hc]
        decide
    · intro c hc
      rw [List.getLast?_concat, Option.some_inj] at hc
      rw [← hc]
      decide
  obtain ⟨whole, fraction, hprinted, hamount, hlen⟩ := formatCents_short hcents
  obtain ⟨m, hm, hdescription, hraw, -⟩ := printedItem_read hd hamount hlen
  rw [← hprinted] at hm hraw
  have hstrip : strip (itemText item) = itemText item := by
    refine strip_of_ends (fun c hc => hd.first c ?_) fun c hc => ?_
    · rw [itemText, List.head?_append_of_ne_nil _ hd.ne_nil] at hc
      exact hc
    · refine hamount.not_space (c := c) ?_
      rw [htext, List.getLast?_append_of_ne_nil _ (by simp [hprinted, amountText]), hprinted] at hc
      exact List.mem_of_getLast? hc
  refine applyManagementLine_spends model frame (n := 2)
    (P := fun r => r.2 = false ∧ r.1.readings = _) hamounts fun model' hreadings => ?_
  rw [hstrip]
  have hword : ∀ word : Text, ' ' ∉ word → startsWith (upper item.1) word = false →
      startsWith (upper (itemText item)) word = false := by
    intro word hblank h
    have hupper : upper (itemText item) = upper item.1 ++ ' ' :: upper (formatCents item.2) := by
      rw [itemText, upper, List.flatMap_append, List.flatMap_cons]
      rfl
    rw [hupper]
    exact startsWith_blank hblank h
  obtain ⟨hresto, hcontanti, htot⟩ := hplain
  unfold managementFields
  dsimp only
  rw [dif_neg (fun h => by rw [hword _ (by decide) hresto] at h; cases h.1),
    dif_neg (fun h => by rw [hword _ (by decide) hcontanti] at h; cases h.1),
    dif_neg (fun h => by rw [hword _ (by decide) htot] at h; cases h.1),
    dif_neg (fun h => absurd h.2 (by simp)), itemText, hm]
  dsimp only
  rw [if_neg (by decide)]
  refine ⟨_, Spends.reserve_ite (Spends.pure _), rfl, ?_⟩
  rw [← hreadings, hdescription, hraw, parsePrintedAmount_formatCents]
  simp [DocumentModel.readings]

/-- The line of the total brings the total. -/
theorem applyManagementLine_total {cents : Nat} (hcents : cents < 100000) :
    ∃ r, Spends (applyManagementLine model false frame ⟨totalText cents, none⟩) 3 r ∧
      r.1.readings = (model.readings.1, model.readings.2.1 ++ [some (cents : Int)],
        model.readings.2.2) := by
  have hamounts : Spends (amountFields (totalText cents) frame) 1
      [{ raw := formatCents cents, cents := cents, source := frame.source }] := by
    have hfront : ("TOT ".toList.all fun c => !isDecimal c) = true := by decide
    refine amountFields_spends frame (by simpa using hfront) (fun c hc => ?_) hcents
    obtain rfl : ' ' = c := Option.some_inj.mp hc
    decide
  obtain ⟨whole, fraction, hprinted, hamount, -⟩ := formatCents_short hcents
  have hstrip : strip (totalText cents) = totalText cents := by
    refine strip_of_ends (fun c hc => ?_) fun c hc => hamount.not_space (c := c) ?_
    · obtain rfl : 'T' = c := Option.some_inj.mp hc
      decide
    · rw [totalText, List.getLast?_append_of_ne_nil _ (by simp [hprinted, amountText]), hprinted]
        at hc
      exact List.mem_of_getLast? hc
  have hupper : upper (totalText cents) = "TOT ".toList ++ upper (formatCents cents) := by
    rw [totalText, upper, List.flatMap_append]
    rfl
  have hresto : startsWith (upper (totalText cents)) "RESTO".toList = false := by rw [hupper]; rfl
  have hcontanti : startsWith (upper (totalText cents)) "CONTANTI".toList = false := by
    rw [hupper]
    rfl
  have htot : startsWith (upper (totalText cents)) "TOT".toList = true := by rw [hupper]; rfl
  refine applyManagementLine_spends model frame (n := 1) (P := fun r => r.1.readings = _) hamounts
    fun model' hreadings => ?_
  rw [hstrip]
  unfold managementFields
  dsimp only
  rw [dif_neg (fun h => by rw [hresto] at h; cases h.1),
    dif_neg (fun h => by rw [hcontanti] at h; cases h.1), dif_pos ⟨htot, by simp⟩]
  refine ⟨_, Spends.reserve_ite (Spends.pure _), ?_⟩
  rw [← hreadings]
  simp [DocumentModel.readings]

end

/-! ## The frames of a receipt -/

/-- The frame is a request with the payload. -/
def RCHFrame.Says (f : RCHFrame) (payload : Text) : Prop :=
  f.expectedRequest = true ∧ f.dataText = payload

theorem command_printable {text : Text} (h : '\n' ∉ text) :
    command (printableLine text) = .line { text := text, style := none } := by
  rw [command, matchManagementLine_printable h]
  rfl

section
variable (maxDocuments : Nat) {a : Assembler} {b : ReceiptBuilder} {f : RCHFrame}

/-- A management document reads a printable line. -/
theorem parseStep_printable {text : Text} {n : Nat} {r : DocumentModel × Bool}
    (hactive : a.active = some b) (hkind : b.kind = .gestionale) (hf : f.Says (printableLine text))
    (htext : '\n' ∉ text)
    (hr : Spends
      (applyManagementLine b.model b.seenPrimaryTotal f { text := text, style := none }) n r) :
    Spends (parseStep maxDocuments a f) n
      { a with active := some { b.addFrame f with model := r.1, seenPrimaryTotal := r.2 } } := by
  have hsame : (b.addFrame f).model = b.model ∧
      (b.addFrame f).seenPrimaryTotal = b.seenPrimaryTotal := by
    unfold ReceiptBuilder.addFrame
    split <;> exact ⟨rfl, rfl⟩
  have hplace : managementFor maxDocuments a f = (a, b) := by
    rw [managementFor, hactive]
    simp only [hkind]
  rw [parseStep_eq, if_pos hf.1, hf.2, command_printable htext]
  simp only [stepCommand, hplace, hsame.1, hsame.2]
  refine Spends.bind (k := 0) hr ?_
  exact Spends.pure _

end

/-- The assembler after the first document, a management document, is complete. -/
def Assembler.closed (a : Assembler) (b : ReceiptBuilder) (f : RCHFrame) : Assembler :=
  { a with
    documents := [(b.addFrame f).finish 1 true]
    issues := a.issues ++ ((b.addFrame f).finish 1 true).issues
    active := none
    pendingStart := none }

theorem parseStep_close (maxDocuments : Nat) {a : Assembler} {b : ReceiptBuilder} {f : RCHFrame}
    (hpos : 1 ≤ maxDocuments) (hdocuments : a.documents = []) (hactive : a.active = some b)
    (hkind : b.kind = .gestionale) (hf : f.Says "=o".toList) :
    Spends (parseStep maxDocuments a f) 0 (a.closed b f) := by
  have hboundary : a.onBoundary maxDocuments f = a.closed b f := by
    have hof : a.activeOf .gestionale = some b := by
      rw [Assembler.activeOf, hactive, Option.filter_some, if_pos (decide_eq_true hkind)]
    have hlt : 0 < maxDocuments := hpos
    rw [Assembler.onBoundary, hof]
    simp only [Assembler.finishActive, hdocuments, List.length_nil, if_pos hlt, Assembler.closed,
      List.nil_append, Nat.zero_add]
  rw [parseStep_eq, if_pos hf.1, hf.2]
  change Spends (pure (a.onBoundary maxDocuments f)) 0 _
  rw [hboundary]
  exact Spends.pure _

/-- The assembler reads a receipt, of which it has some items. -/
structure Assembler.Prints (a : Assembler) (items : List (Text × Nat)) : Prop where
  documents : a.documents = []
  active : ∃ b, a.active = some b ∧ b.kind = .gestionale ∧ b.seenPrimaryTotal = false ∧
    b.model.readings = (items.map fun item => (item.1, some (item.2 : Int)), [], [], [])

theorem printed_itemText {item : Text × Nat} (h : IsDescription item.1) : '\n' ∉ itemText item := by
  rw [itemText, List.mem_append, List.mem_cons, not_or, not_or]
  refine ⟨h.not_newline, by decide, fun hmem => ?_⟩
  rw [formatCents_eq] at hmem
  rcases (formatCents_isAmount item.2).mem hmem with h | h | h | h <;> revert h <;> decide

theorem printed_totalText (cents : Nat) : '\n' ∉ totalText cents := by
  rw [totalText, List.mem_append, not_or]
  refine ⟨by decide, fun hmem => ?_⟩
  rw [formatCents_eq] at hmem
  rcases (formatCents_isAmount cents).mem hmem with h | h | h | h <;> revert h <;> decide

section
variable (maxDocuments : Nat) {a : Assembler} {f : RCHFrame} {items : List (Text × Nat)}

/-- The line of an item. -/
theorem Assembler.Prints.readItem (h : a.Prints items) {item : Text × Nat} (hd : IsDescription item.1)
    (hplain : IsItemName item.1) (hcents : item.2 < 100000)
    (hf : f.Says (printableLine (itemText item))) :
    ∃ a', Spends (parseStep maxDocuments a f) 4 a' ∧ a'.Prints (items ++ [item]) := by
  obtain ⟨b, hactive, hkind, hseen, hreadings⟩ := h.active
  obtain ⟨r, hr, hseen', hreadings'⟩ := applyManagementLine_item b.model f hd hplain hcents
  rw [← hseen] at hr
  refine ⟨_, parseStep_printable maxDocuments hactive hkind hf (printed_itemText hd) hr, h.documents,
    _, rfl, (ReceiptBuilder.addFrame_kind b f).trans hkind, hseen', ?_⟩
  rw [hreadings', hreadings]
  simp

/-- The receipt up to its total. -/
theorem Assembler.Prints.readItems (h : a.Prints items) {more : List (Text × Nat)}
    {frames : List RCHFrame}
    (hmore : ∀ item ∈ more, IsDescription item.1 ∧ IsItemName item.1 ∧ item.2 < 100000)
    (hframes : List.Forall₂ (fun item f => f.Says (printableLine (itemText item))) more frames) :
    ∃ a', Spends (parseFrames maxDocuments a frames) (4 * more.length) a' ∧
      a'.Prints (items ++ more) := by
  induction hframes generalizing a items with
  | nil => exact ⟨a, Spends.pure a, by rwa [List.append_nil]⟩
  | @cons item f more frames hf hframes ih =>
    obtain ⟨hd, hplain, hcents⟩ := hmore item List.mem_cons_self
    obtain ⟨a', hstep, h'⟩ := h.readItem maxDocuments hd hplain hcents hf
    obtain ⟨a'', hrest, h''⟩ := ih h' fun i hi => hmore i (List.mem_cons_of_mem _ hi)
    refine ⟨a'', ?_, by simpa using h''⟩
    rw [parseFrames, List.foldlM_cons, List.length_cons, Nat.mul_succ, Nat.add_comm]
    exact hstep.bind hrest

/-- The frames of a receipt: one complete document, with what was printed. -/
theorem parseDocuments_printed (budget : SemanticBudget) (hpos : 1 ≤ maxDocuments)
    {frames : List RCHFrame}
    (hitems : ∀ item ∈ items, IsDescription item.1 ∧ IsItemName item.1)
    (hsum : (items.map (·.2)).sum < 100000)
    (hframes : List.Forall₂ (fun payload f => f.Says payload) (printedReceipt items) frames)
    (hroom : budget.used + (4 * items.length + 3) ≤ budget.limit) :
    ∃ d, ((parseDocuments maxDocuments frames).run budget).1.1 = [d] ∧
      d.documentType = .gestionale ∧ d.complete = true ∧
      d.model.readings = (items.map fun item => (item.1, some (item.2 : Int)),
        [some (((items.map (·.2)).sum : Nat) : Int)], [], []) := by
  have hsmall : ∀ item ∈ items, IsDescription item.1 ∧ IsItemName item.1 ∧ item.2 < 100000 := by
    intro item hitem
    refine ⟨(hitems item hitem).1, (hitems item hitem).2, ?_⟩
    obtain ⟨l, l', rfl⟩ := List.append_of_mem hitem
    simp only [List.map_append, List.map_cons, List.sum_append, List.sum_cons] at hsum
    omega
  obtain ⟨first, tail, hfirst, htail, rfl⟩ := List.forall₂_cons_left_iff.mp hframes
  have hlines := List.forall₂_take items.length htail
  have hends := List.forall₂_drop items.length htail
  rw [List.append_eq, List.take_left' (List.length_map _), List.forall₂_map_left_iff] at hlines
  rw [List.append_eq, List.drop_left' (List.length_map _)] at hends
  obtain ⟨total, ends, htotal, hend, hdrop⟩ := List.forall₂_cons_left_iff.mp hends
  obtain ⟨last, ends, hlast, hnil, rfl⟩ := List.forall₂_cons_left_iff.mp hend
  obtain rfl := List.forall₂_nil_left_iff.mp hnil
  rw [← List.take_append_drop items.length tail, hdrop]
  -- the first frame opens the document, then come the items
  have hopen : Spends (parseStep maxDocuments {} first) 0
      { active := some (.new .gestionale first) } := by
    rw [parseStep_eq, if_pos hfirst.1, hfirst.2]
    exact Spends.pure _
  have hstart : Assembler.Prints { active := some (.new .gestionale first) } [] :=
    ⟨rfl, _, rfl, rfl, rfl, rfl⟩
  obtain ⟨a, hread, ha⟩ := hstart.readItems maxDocuments hsmall hlines
  obtain ⟨b, hactive, hkind, hseen, hreadings⟩ := ha.active
  -- the total, and the frame that closes the document
  obtain ⟨r, hr, hreadings'⟩ := applyManagementLine_total b.model total hsum
  rw [← hseen] at hr
  have hpaid := parseStep_printable maxDocuments hactive hkind htotal (printed_totalText _) hr
  let b' : ReceiptBuilder := { b.addFrame total with model := r.1, seenPrimaryTotal := r.2 }
  let a' : Assembler := { a with active := some b' }
  have hkind' : b'.kind = .gestionale := (ReceiptBuilder.addFrame_kind b total).trans hkind
  have hclose : Spends (parseStep maxDocuments a' last) 0 (a'.closed b' last) :=
    parseStep_close maxDocuments hpos ha.documents rfl hkind' hlast
  have hrun : Spends (parseFrames maxDocuments {}
      (first :: (tail.take items.length ++ [total, last])))
      (0 + (4 * items.length + (3 + (0 + 0)))) (a'.closed b' last) := by
    rw [parseFrames, List.foldlM_cons]
    refine hopen.bind ?_
    rw [List.foldlM_append]
    exact hread.bind (hpaid.bind (hclose.bind (Spends.pure _)))
  obtain ⟨transitions, ids, hfinished, -, hmodel⟩ := (b'.addFrame last).finish_eq 1 true
  refine ⟨(b'.addFrame last).finish 1 true, ?_,
    hfinished.trans ((ReceiptBuilder.addFrame_kind b' last).trans hkind'), rfl, ?_⟩
  · rw [parseDocuments_eq, finalAssembler, hrun budget (by omega)]
    rfl
  · have hkept : ((b'.addFrame last).finish 1 true).model.readings = r.1.readings := by
      rw [hmodel, ReceiptBuilder.addFrame_model]
      rfl
    rw [hkept, hreadings', hreadings]
    rfl

end

/-! ## The stream of a receipt -/

/-- A request frame with the payload, as `build_frame` makes it. -/
def IsFrameOf (payload : Text) (raw : Bytes) : Prop :=
  ∃ sequence, buildFrame (.str payload) "00".toList (.str ['z']) sequence = .ok raw

theorem isFrameOf_zero {payload : Text} {raw : Bytes}
    (h : buildFrame (.str payload) "00".toList (.str ['z']) (.str ['0']) = .ok raw) :
    IsFrameOf payload raw := ⟨_, h⟩

/-- What `encode("latin-1")` returns reads as the text. -/
theorem latin1_of_encodeLatin1 {s : Text} {b : Bytes} (h : encodeLatin1 s = .ok b) : latin1 b = s := by
  unfold encodeLatin1 at h
  split at h
  · next hsmall =>
    cases h
    rw [latin1, List.map_map]
    refine (List.map_congr_left fun c hc => ?_).trans (List.map_id s)
    have hlt : c.toNat < 256 := by simpa using List.all_eq_true.mp hsmall c hc
    change Char.ofNat (UInt8.ofNat c.toNat).toNat = c
    rw [UInt8.toNat_ofNat', Nat.mod_eq_of_lt hlt, Char.ofNat_toNat]
  · cases h

theorem IsFrameOf.encode {payload : Text} {raw : Bytes} (h : IsFrameOf payload raw) :
    ∃ b, encodeLatin1 payload = .ok b ∧ b.length = payload.length := by
  obtain ⟨sequence, h⟩ := h
  unfold buildFrame at h
  cases hb : encodeLatin1 payload with
  | error e => simp [BytesOrStr.encode, hb, bind, Except.bind] at h
  | ok b => exact ⟨b, rfl, by rw [← latin1_of_encodeLatin1 hb, latin1_length]⟩

/-- A frame is reported with its payload. -/
theorem says_of_reportedBy {payload : Text} {sequence : BytesOrStr} {e : StreamEvent}
    (h : (Sent.build ⟨.str payload, "00".toList, .str ['z'], sequence⟩).ReportedBy e) :
    ∃ f, e = .frame f ∧ f.Says payload := by
  cases e with
  | ack => cases h
  | frame f =>
    obtain ⟨hdata, haddress, hbcc, ⟨c, hc, hclass⟩, -⟩ := h
    refine ⟨f, rfl, ?_, latin1_of_encodeLatin1 hdata⟩
    obtain rfl : c = 0x7A := by
      have hz : (BytesOrStr.str ['z']).encode encodeAscii = .ok [0x7A] := rfl
      rw [hz] at hc
      simpa using hc.symm
    simp only [RCHFrame.expectedRequest, hbcc, haddress, hclass]
    decide

/-- The frames of a stream that was built from payloads. -/
theorem frameStream_says {lim : FramerLimits} {payloads : List Text} {raws : List Bytes}
    (hraws : List.Forall₂ IsFrameOf payloads raws)
    (hfit : ∀ payload ∈ payloads, payload.length ≤ lim.maxDataLength)
    (hn : payloads.length ≤ lim.maxEvents) :
    ∃ r, frameStream lim raws.flatten = .ok r ∧
      List.Forall₂ (fun payload f => f.Says payload) payloads r.frames := by
  obtain ⟨sent, hbytes, hpayloads, hfits⟩ : ∃ sent,
      List.Forall₂ (fun (s : Sent) raw => s.bytes = .ok raw) sent raws ∧
      List.Forall₂ (fun payload s => ∃ sequence,
        s = Sent.build ⟨.str payload, "00".toList, .str ['z'], sequence⟩) payloads sent ∧
      ∀ s ∈ sent, s.Fits lim.maxDataLength := by
    clear hn
    induction hraws with
    | nil => exact ⟨[], .nil, .nil, nofun⟩
    | @cons payload raw payloads raws h _ ih =>
      obtain ⟨b, hb, hlen⟩ := h.encode
      obtain ⟨sequence, h⟩ := h
      obtain ⟨sent, hbytes, hpayloads, hfits⟩ := ih fun p hp => hfit p (List.mem_cons_of_mem _ hp)
      refine ⟨.build ⟨.str payload, "00".toList, .str ['z'], sequence⟩ :: sent, .cons h hbytes,
        .cons ⟨sequence, rfl⟩ hpayloads, fun s hs => ?_⟩
      rcases List.mem_cons.mp hs with rfl | hs
      · exact ⟨b, hb, hlen ▸ hfit payload List.mem_cons_self⟩
      · exact hfits s hs
  obtain ⟨r, hr, hreported, -⟩ := frameChunks_sent lim [raws.flatten] hbytes
    (List.append_nil _).symm hfits (hpayloads.length_eq ▸ hn)
  refine ⟨r, hr, ?_⟩
  rw [FramingResult.frames]
  generalize r.events = events at hreported
  clear hr hbytes hfits hfit hn hraws
  induction hpayloads generalizing events with
  | nil =>
    obtain rfl := List.forall₂_nil_left_iff.mp hreported
    exact .nil
  | cons h _ ih =>
    obtain ⟨sequence, rfl⟩ := h
    obtain ⟨e, events, he, hevents, rfl⟩ := List.forall₂_cons_left_iff.mp hreported
    obtain ⟨f, rfl, hf⟩ := says_of_reportedBy he
    exact .cons hf (ih events hevents)

/-! ## Reading a receipt back -/

/-- A management document alone gets a subtype, and no counter. -/
theorem reconstruct_management {lim : ParserLimits} {request response : FramingResult}
    {m : SemanticBudget} {d : ParsedReceipt}
    (hd : ((parseDocuments lim.maxDocuments request.frames).run m).1.1 = [d])
    (hkind : d.documentType = .gestionale) :
    ((reconstruct lim request response).run m).1.1 =
      [d.assignSubtype (managementSubtype d []).1 (managementSubtype d []).2.1
        (managementSubtype d []).2.2] := by
  have hattach : ∀ correlations m,
      ((attachResponseCounters correlations request response [d]).run m).1 = [d] := by
    intro correlations m
    have hskip : attachResponseCounter correlations request response d = pure d :=
      if_pos (.inl (by rw [hkind]; decide))
    rw [attachResponseCounters_cons, hskip]
    rfl
  change assignDocumentSubtypes [] ((attachResponseCounters _ request response
    ((parseDocuments lim.maxDocuments request.frames).run m).1.1).run _).1 = _
  rw [hd, hattach, assignDocumentSubtypes_gestionale hkind]
  rfl

/-- No limit is reached by the stream of a receipt. -/
structure ParserLimits.Room (lim : ParserLimits) (items : List (Text × Nat)) (request : Bytes) :
    Prop where
  bytes : request.length ≤ lim.maxAnalyzedBytes
  data : ∀ payload ∈ printedReceipt items, payload.length ≤ lim.framer.maxDataLength
  events : (printedReceipt items).length ≤ lim.framer.maxEvents
  fields : 4 * items.length + 3 ≤ lim.maxSemanticFields

/-- **A printed receipt is read back**: one complete document with the items in order and the total,
if no description starts with the word of another line. -/
theorem printed_receipt_read_back (lim : ParserLimits) (items : List (Text × Nat))
    (raws : List Bytes) (response : Bytes)
    (hdescriptions : ∀ item ∈ items, IsDescription item.1 ∧ IsItemName item.1)
    (hsum : (items.map (·.2)).sum < 100000)
    (hraws : List.Forall₂ IsFrameOf (printedReceipt items) raws)
    (hroom : lim.Room items raws.flatten) :
    ∃ r d, parseProtocolCopies lim raws.flatten response = .ok r ∧ r.documents = [d] ∧
      d.documentType = .gestionale ∧ d.complete = true ∧
      d.model.items.map (fun item => (item.description, item.amountCents)) =
        items.map (fun item => (item.1, some (item.2 : Int))) ∧
      d.model.totals.map (·.amountCents) = [some (((items.map (·.2)).sum : Nat) : Int)] ∧
      d.model.payments = [] ∧ d.model.taxes = [] := by
  obtain ⟨req, resp, hreq, -, hrun⟩ := parseProtocolCopies_ok lim raws.flatten response
  obtain ⟨req', hreq', hframes⟩ := frameStream_says hraws hroom.data hroom.events
  rw [List.take_of_length_le hroom.bytes] at hreq
  cases Except.ok.inj (hreq.symm.trans hreq')
  obtain ⟨d, hd, hkind, hcomplete, hreadings⟩ := parseDocuments_printed lim.maxDocuments
    (.new lim.maxSemanticFields) lim.documents_pos hdescriptions hsum hframes
    (by rw [Nat.add_comm]; exact hroom.fields)
  simp only [DocumentModel.readings, Prod.mk.injEq] at hreadings
  refine ⟨_, d.assignSubtype (managementSubtype d []).1 (managementSubtype d []).2.1
    (managementSubtype d []).2.2, hrun, ?_, hkind, hcomplete, hreadings⟩
  rw [parseFramedCopies_documents, reconstruct_management hd hkind]

/-- Bread and water are read back. -/
theorem printed_receipt_read_back_bread :
    ∃ r d, parseProtocolCopies .default
        (["=o", "=\"/(Pane 2,50)", "=\"/(Acqua 1,00)", "=\"/(TOT 3,50)", "=o"].map
          requestFrame).flatten [] = .ok r ∧ r.documents = [d] ∧
      d.documentType = .gestionale ∧ d.complete = true ∧
      d.model.items.map (fun item => (item.description, item.amountCents)) =
        [("Pane".toList, some 250), ("Acqua".toList, some 100)] ∧
      d.model.totals.map (·.amountCents) = [some 350] ∧
      d.model.payments = [] ∧ d.model.taxes = [] := by
  exact printed_receipt_read_back .default [("Pane".toList, 250), ("Acqua".toList, 100)] _ []
    (by decide +kernel) (by decide)
    (.cons (isFrameOf_zero (by decide +kernel)) (.cons (isFrameOf_zero (by decide +kernel))
      (.cons (isFrameOf_zero (by decide +kernel)) (.cons (isFrameOf_zero (by decide +kernel))
        (.cons (isFrameOf_zero (by decide +kernel)) .nil)))))
    ⟨by decide +kernel, by decide +kernel, by decide, by decide⟩

/-- Squid is no item: its line is read as a total. -/
theorem printed_receipt_not_read_back :
    ¬ ∀ (lim : ParserLimits) (items : List (Text × Nat)) (raws : List Bytes) (response : Bytes),
      items ≠ [] → (∀ item ∈ items, IsDescription item.1 ∧ '%' ∉ item.1) →
      (items.map (·.2)).sum < 100000 → List.Forall₂ IsFrameOf (printedReceipt items) raws →
      lim.Room items raws.flatten →
      ∃ r d, parseProtocolCopies lim raws.flatten response = .ok r ∧ r.documents = [d] ∧
        d.documentType = .gestionale ∧ d.complete = true ∧
        d.model.items.map (fun item => (item.description, item.amountCents)) =
          items.map (fun item => (item.1, some (item.2 : Int))) ∧
        d.model.totals.map (·.amountCents) = [some (((items.map (·.2)).sum : Nat) : Int)] ∧
        d.model.payments = [] ∧ d.model.taxes = [] := by
  intro hall
  obtain ⟨r, d, hr, hd, -, -, hitems, -⟩ := hall .default [("TOTANO".toList, 300)]
    (["=o", "=\"/(TOTANO 3,00)", "=\"/(TOT 3,00)", "=o"].map requestFrame) []
    (by decide) (by decide +kernel) (by decide)
    (.cons (isFrameOf_zero (by decide +kernel)) (.cons (isFrameOf_zero (by decide +kernel))
      (.cons (isFrameOf_zero (by decide +kernel)) (.cons (isFrameOf_zero (by decide +kernel)) .nil))))
    ⟨by decide +kernel, by decide +kernel, by decide, by decide⟩
  have hnone : (parseProtocolCopies .default
      (["=o", "=\"/(TOTANO 3,00)", "=\"/(TOT 3,00)", "=o"].map requestFrame).flatten []).toOption.any
      (fun r => r.documents.all (·.model.items = [])) = true := by decide +kernel
  simp only [hr, Except.toOption, Option.any_some, hd, List.all_cons, List.all_nil, Bool.and_true,
    decide_eq_true_eq] at hnone
  rw [hnone] at hitems
  cases hitems

end RchProxy
