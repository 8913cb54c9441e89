import TurkishMorphology.Lexicon.Entry
import TurkishMorphology.Lexicon.RootIndex
/-!
# The sample dictionary

A small dictionary that comes with the library: common nouns, adjectives, verbs, pronouns and
numbers, among them at least one word for each kind of alternation.

## Main definitions

- `Sample.entries` — its lines
- `Sample.lexemes`, `Sample.index` — its lexemes, and the index of their roots
-/

namespace TurkishMorphology.Sample

def entries : List String := [
  "ad",
  "anne",
  "araba",
  "arkadaş",
  "armut [A:Voicing]",
  "ağaç",
  "ağız [A:LastVowelDrop]",
  "baba",
  "bisiklet [A:NoVoicing]",
  "burun [A:LastVowelDrop]",
  "çocuk",
  "dağ",
  "deniz",
  "dil",
  "dünya",
  "el",
  "ev",
  "göl",
  "göz",
  "gün",
  "hak [A:Doubling]",
  "hayvan",
  "insan",
  "iş",
  "kalem",
  "kalp [A:VoicingOpt]",
  "kapı",
  "kardeş",
  "kâr",
  "kağıt",
  "kedi",
  "kitap",
  "köpek",
  "masa",
  "oğul [A:LastVowelDrop]",
  "okul",
  "öğrenci",
  "öğretmen",
  "para",
  "renk [A:Voicing]",
  "saat [A:InverseHarmony, NoVoicing]",
  "sınıf",
  "su [A:RootChange]",
  "şehir [A:LastVowelDrop]",
  "şey",
  "taş",
  "ülke",
  "yemek [P:Noun]",
  "yer",
  "yıl",
  "yol",
  "zaman",
  "büyük [P:Adj]",
  "eski [P:Adj]",
  "güzel [P:Adj]",
  "iyi [P:Adj]",
  "kırmızı [P:Adj]",
  "kötü [P:Adj]",
  "küçük [P:Adj]",
  "mavi [P:Adj]",
  "uzun [P:Adj]",
  "yeni [P:Adj]",
  "hep [P:Adv]",
  "şimdi [P:Adv]",
  "yarın [P:Adv,Time]",
  "bugün [P:Adv,Time]",
  "çok [P:Adv]",
  "almak",
  "anlamak",
  "aramak",
  "atamak",
  "bakmak",
  "başlamak",
  "beklemek",
  "bilmek",
  "bulmak",
  "çalışmak",
  "çıkmak",
  "demek [A:RootChange]",
  "durmak",
  "düşünmek",
  "etmek [A:Voicing]",
  "gelmek",
  "girmek",
  "gitmek [A:Voicing]",
  "görmek",
  "içmek",
  "kalmak",
  "konuşmak",
  "koşmak",
  "okumak",
  "olmak",
  "oturmak",
  "öğrenmek",
  "sevmek",
  "sormak",
  "söylemek",
  "uyumak",
  "vermek",
  "yapmak",
  "yazmak",
  "yemek [P:Verb; A:RootChange; R:ye]",
  "yıkamak",
  "yürümek",
  "ben [P:Pron,Pers; A:RootChange]",
  "sen [P:Pron,Pers; A:RootChange]",
  "o [P:Pron,Pers; A:RootChange]",
  "biz [P:Pron,Pers]",
  "siz [P:Pron,Pers]",
  "bu [P:Pron,Demons; A:RootChange]",
  "şu [P:Pron,Demons; A:RootChange]",
  "kendi [P:Pron,Reflex]",
  "kim [P:Pron,Ques]",
  "ne [P:Pron,Ques]",
  "bir [P:Det]",
  "bu [P:Det]",
  "her [P:Det]",
  "o [P:Det]",
  "şu [P:Det]",
  "bir [P:Num,Card]",
  "iki [P:Num,Card]",
  "üç [P:Num,Card]",
  "dört [P:Num,Card]",
  "beş [P:Num,Card]",
  "altı [P:Num,Card]",
  "yedi [P:Num,Card]",
  "sekiz [P:Num,Card]",
  "dokuz [P:Num,Card]",
  "on [P:Num,Card]",
  "yirmi [P:Num,Card]",
  "yüz [P:Num,Card]",
  "bin [P:Num,Card]",
  "ama [P:Conj]",
  "çünkü [P:Conj]",
  "da [P:Conj]",
  "de [P:Conj]",
  "fakat [P:Conj]",
  "ve [P:Conj]",
  "veya [P:Conj]",
  "evet [P:Interj]",
  "hayır [P:Interj]",
  "merhaba [P:Interj]",
  "gibi [P:Postp,PostPos]",
  "göre [P:Postp,PostPos]",
  "için [P:Postp,PostPos]",
  "ile [P:Postp,PostPos]",
  "kadar [P:Postp,PostPos]",
  "mı [P:Ques]",
  "mi [P:Ques]",
  "mu [P:Ques]",
  "mü [P:Ques]"]

def lexemes : Except LexiconError (List Lexeme) := Entry.readLines 1 (entries.map String.toList)

def index (options : LexiconOptions) : Except LexiconError RootIndex :=
  lexemes.bind (RootIndex.ofLexemes options)

end TurkishMorphology.Sample
