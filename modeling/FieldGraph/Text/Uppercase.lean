import FieldGraph.Text.Ranges

/-! # Upper case

The upper case form of a text, letter by letter. Most letters have one capital, found by a table of
runs of letters whose capitals lie at one distance. Some letters and ligatures become several
characters.
-/

namespace FieldGraph.Text

/-- Letters at regular steps, and the distance of their capitals. -/
structure CaseRun where
  first : Nat
  last : Nat
  step : Nat
  offset : Int

def CaseRun.holds (run : CaseRun) (code : Nat) : Bool :=
  run.first ≤ code && code ≤ run.last && (code - run.first) % run.step == 0

def CaseRun.capital (run : CaseRun) (code : Nat) : Char :=
  Char.ofNat (Int.ofNat code + run.offset).toNat

/-- The runs of letters beyond the ASCII range, each with one capital. -/
def wideCapitals : List CaseRun :=
  [
    ⟨0xE0, 0xF6, 1, -32⟩, ⟨0xF8, 0xFE, 1, -32⟩, ⟨0x101, 0x12F, 2, -1⟩, ⟨0x133, 0x137, 2, -1⟩,
    ⟨0x13A, 0x148, 2, -1⟩, ⟨0x14B, 0x177, 2, -1⟩, ⟨0x17A, 0x17E, 2, -1⟩, ⟨0x1A1, 0x1A5, 2, -1⟩,
    ⟨0x1CE, 0x1DC, 2, -1⟩, ⟨0x1DF, 0x1EF, 2, -1⟩, ⟨0x1F9, 0x21F, 2, -1⟩, ⟨0x223, 0x233, 2, -1⟩,
    ⟨0x247, 0x24F, 2, -1⟩, ⟨0x345, 0x345, 1, 84⟩, ⟨0x37B, 0x37D, 1, 130⟩, ⟨0x3AD, 0x3AF, 1, -37⟩,
    ⟨0x3B1, 0x3C1, 1, -32⟩, ⟨0x3C3, 0x3CB, 1, -32⟩, ⟨0x3D9, 0x3EF, 2, -1⟩, ⟨0x430, 0x44F, 1, -32⟩,
    ⟨0x450, 0x45F, 1, -80⟩, ⟨0x461, 0x481, 2, -1⟩, ⟨0x48B, 0x4BF, 2, -1⟩, ⟨0x4C2, 0x4CE, 2, -1⟩,
    ⟨0x4D1, 0x52F, 2, -1⟩, ⟨0x561, 0x586, 1, -48⟩, ⟨0x10D0, 0x10FA, 1, 3008⟩,
    ⟨0x10FD, 0x10FF, 1, 3008⟩, ⟨0x13F8, 0x13FD, 1, -8⟩, ⟨0x1E01, 0x1E95, 2, -1⟩,
    ⟨0x1EA1, 0x1EFF, 2, -1⟩, ⟨0x1F00, 0x1F07, 1, 8⟩, ⟨0x1F10, 0x1F15, 1, 8⟩,
    ⟨0x1F20, 0x1F27, 1, 8⟩, ⟨0x1F30, 0x1F37, 1, 8⟩, ⟨0x1F40, 0x1F45, 1, 8⟩,
    ⟨0x1F51, 0x1F57, 2, 8⟩, ⟨0x1F60, 0x1F67, 1, 8⟩, ⟨0x1F72, 0x1F75, 1, 86⟩,
    ⟨0x2170, 0x217F, 1, -16⟩, ⟨0x24D0, 0x24E9, 1, -26⟩, ⟨0x2C30, 0x2C5F, 1, -48⟩,
    ⟨0x2C68, 0x2C6C, 2, -1⟩, ⟨0x2C81, 0x2CE3, 2, -1⟩, ⟨0x2D00, 0x2D25, 1, -7264⟩,
    ⟨0xA641, 0xA66D, 2, -1⟩, ⟨0xA681, 0xA69B, 2, -1⟩, ⟨0xA723, 0xA72F, 2, -1⟩,
    ⟨0xA733, 0xA76F, 2, -1⟩, ⟨0xA77F, 0xA787, 2, -1⟩, ⟨0xA797, 0xA7A9, 2, -1⟩,
    ⟨0xA7B5, 0xA7C3, 2, -1⟩, ⟨0xAB70, 0xABBF, 1, -38864⟩, ⟨0xFF41, 0xFF5A, 1, -32⟩,
    ⟨0x10428, 0x1044F, 1, -40⟩, ⟨0x104D8, 0x104FB, 1, -40⟩, ⟨0x10597, 0x105BB, 2, -39⟩,
    ⟨0x10598, 0x105A0, 2, -39⟩, ⟨0x105A4, 0x105B0, 2, -39⟩, ⟨0x105B4, 0x105B8, 2, -39⟩,
    ⟨0x10CC0, 0x10CF2, 1, -64⟩, ⟨0x118C0, 0x118DF, 1, -32⟩, ⟨0x16E60, 0x16E7F, 1, -32⟩,
    ⟨0x1E922, 0x1E943, 1, -34⟩
  ]

/-- The letters outside all runs that have one capital, with their capitals. -/
def singleCapitals : List (Char × Char) :=
  List.zip
    ("µÿıſƀƃƅƈƌƒƕƙƚƞƨƭưƴƶƹƽƿǅǆǈǉǋǌǝǲǳǵȼȿɀɂɐɑɒɓɔɖɗəɛɜɠɡɣɥɦɨɩɪɫɬɯɱɲɵɽʀʂʃʇʈʉʊʋʌʒʝʞͱͳͷάςόύώϐϑϕϖϗϰϱϲϳ" ++
      "ϵϸϻӏᲀᲁᲂᲃᲄᲅᲆᲇᲈᵹᵽᶎẛὰάὶίὸόὺύὼώᾰᾱιῐῑῠῡῥⅎↄⱡⱥⱦⱳⱶⳬⳮⳳⴧⴭꝺꝼꞌꞑꞓꞔꟈꟊꟑꟗꟙꟶꭓ𐖼").toList
    ("ΜŸISɃƂƄƇƋƑǶƘȽȠƧƬƯƳƵƸƼǷǄǄǇǇǊǊƎǱǱǴȻⱾⱿɁⱯⱭⱰƁƆƉƊƏƐꞫƓꞬƔꞍꞪƗƖꞮⱢꞭƜⱮƝƟⱤƦꟅƩꞱƮɄƱƲɅƷꞲꞰͰͲͶΆΣΌΎΏΒΘΦΠϏΚΡϹͿ" ++
      "ΕϷϺӀВДОСТТЪѢꙊꝽⱣꟆṠᾺΆῚΊῸΌῪΎῺΏᾸᾹΙῘῙῨῩῬℲↃⱠȺȾⱲⱵⳫⳭⳲჇჍꝹꝻꞋꞐꞒꟄꟇꟉꟐꟖꟘꟵꞳ𐖕").toList

/-- The letters that become several characters. -/
def expandedCapitals : List (Char × String) :=
  [
    ('ß', "SS"), ('ŉ', "ʼN"), ('ǰ', "J̌"), ('ΐ', "Ϊ́"), ('ΰ', "Ϋ́"), ('և', "ԵՒ"), ('ẖ', "H̱"),
    ('ẗ', "T̈"), ('ẘ', "W̊"), ('ẙ', "Y̊"), ('ẚ', "Aʾ"), ('ὐ', "Υ̓"), ('ὒ', "Υ̓̀"), ('ὔ', "Υ̓́"),
    ('ὖ', "Υ̓͂"), ('ᾀ', "ἈΙ"), ('ᾁ', "ἉΙ"), ('ᾂ', "ἊΙ"), ('ᾃ', "ἋΙ"), ('ᾄ', "ἌΙ"), ('ᾅ', "ἍΙ"),
    ('ᾆ', "ἎΙ"), ('ᾇ', "ἏΙ"), ('ᾈ', "ἈΙ"), ('ᾉ', "ἉΙ"), ('ᾊ', "ἊΙ"), ('ᾋ', "ἋΙ"), ('ᾌ', "ἌΙ"),
    ('ᾍ', "ἍΙ"), ('ᾎ', "ἎΙ"), ('ᾏ', "ἏΙ"), ('ᾐ', "ἨΙ"), ('ᾑ', "ἩΙ"), ('ᾒ', "ἪΙ"), ('ᾓ', "ἫΙ"),
    ('ᾔ', "ἬΙ"), ('ᾕ', "ἭΙ"), ('ᾖ', "ἮΙ"), ('ᾗ', "ἯΙ"), ('ᾘ', "ἨΙ"), ('ᾙ', "ἩΙ"), ('ᾚ', "ἪΙ"),
    ('ᾛ', "ἫΙ"), ('ᾜ', "ἬΙ"), ('ᾝ', "ἭΙ"), ('ᾞ', "ἮΙ"), ('ᾟ', "ἯΙ"), ('ᾠ', "ὨΙ"), ('ᾡ', "ὩΙ"),
    ('ᾢ', "ὪΙ"), ('ᾣ', "ὫΙ"), ('ᾤ', "ὬΙ"), ('ᾥ', "ὭΙ"), ('ᾦ', "ὮΙ"), ('ᾧ', "ὯΙ"), ('ᾨ', "ὨΙ"),
    ('ᾩ', "ὩΙ"), ('ᾪ', "ὪΙ"), ('ᾫ', "ὫΙ"), ('ᾬ', "ὬΙ"), ('ᾭ', "ὭΙ"), ('ᾮ', "ὮΙ"), ('ᾯ', "ὯΙ"),
    ('ᾲ', "ᾺΙ"), ('ᾳ', "ΑΙ"), ('ᾴ', "ΆΙ"), ('ᾶ', "Α͂"), ('ᾷ', "Α͂Ι"), ('ᾼ', "ΑΙ"), ('ῂ', "ῊΙ"),
    ('ῃ', "ΗΙ"), ('ῄ', "ΉΙ"), ('ῆ', "Η͂"), ('ῇ', "Η͂Ι"), ('ῌ', "ΗΙ"), ('ῒ', "Ϊ̀"), ('ΐ', "Ϊ́"),
    ('ῖ', "Ι͂"), ('ῗ', "Ϊ͂"), ('ῢ', "Ϋ̀"), ('ΰ', "Ϋ́"), ('ῤ', "Ρ̓"), ('ῦ', "Υ͂"), ('ῧ', "Ϋ͂"),
    ('ῲ', "ῺΙ"), ('ῳ', "ΩΙ"), ('ῴ', "ΏΙ"), ('ῶ', "Ω͂"), ('ῷ', "Ω͂Ι"), ('ῼ', "ΩΙ"), ('ﬀ', "FF"),
    ('ﬁ', "FI"), ('ﬂ', "FL"), ('ﬃ', "FFI"), ('ﬄ', "FFL"), ('ﬅ', "ST"), ('ﬆ', "ST"), ('ﬓ', "ՄՆ"),
    ('ﬔ', "ՄԵ"), ('ﬕ', "ՄԻ"), ('ﬖ', "ՎՆ"), ('ﬗ', "ՄԽ")
  ]

/-- The upper case form of a character beyond the ASCII range. -/
def wideUppercase (c : Char) : List Char :=
  match expandedCapitals.lookup c, singleCapitals.lookup c with
  | some text, _ => text.toList
  | none, some capital => [capital]
  | none, none =>
    match wideCapitals.find? (·.holds c.toNat) with
    | some run => [run.capital c.toNat]
    | none => [c]

/-- The upper case form of a character. -/
def uppercaseOf (c : Char) : List Char := if beyondAscii c then wideUppercase c else [c.toUpper]

def uppercase (text : String) : String := String.ofList (text.toList.flatMap uppercaseOf)

/-- In the ASCII range the upper case form is that of the core library. -/
theorem uppercaseOf_ascii {c : Char} (ascii : beyondAscii c = false) :
    uppercaseOf c = [c.toUpper] := by
  unfold uppercaseOf
  rw [ascii]
  rfl

end FieldGraph.Text
