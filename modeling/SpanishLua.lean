import SpanishLua.Main
import SpanishLua.Proofs.Bounds
import SpanishLua.Proofs.Denial
import SpanishLua.Proofs.Literals
import SpanishLua.Proofs.Safety
import SpanishLua.Proofs.Alphabet
import SpanishLua.Proofs.Grammar
import SpanishLua.Proofs.Correspondence
import SpanishLua.Proofs.Places
import SpanishLua.Proofs.Stages
import SpanishLua.Proofs.Words
import SpanishLua.Proofs.Untouched
import SpanishLua.Proofs.Edits
import SpanishLua.Proofs.Counting
import SpanishLua.Proofs.Puts
import SpanishLua.Proofs.Reflections
import SpanishLua.Proofs.Items
import SpanishLua.Proofs.Settling
import SpanishLua.Proofs.Idempotence
import SpanishLua.Proofs.Reparsing
import SpanishLua.Proofs.Returns
import SpanishLua.Proofs.Overwriting
import SpanishLua.Proofs.Refinement
import SpanishLua.Proofs.ByteOrder
import SpanishLua.Proofs.Merging
import SpanishLua.Proofs.Agreement
import SpanishLua.Proofs.Independence
import SpanishLua.Proofs.JsonText
import SpanishLua.Proofs.Roundtrip
import SpanishLua.Proofs.Aborting
import SpanishLua.Proofs.Effects
import SpanishLua.Proofs.Reporting
import SpanishLua.Proofs.Tallying
import SpanishLua.Proofs.Severing
import SpanishLua.Proofs.MemberNames
import SpanishLua.Proofs.Shades
import SpanishLua.Proofs.WholeWords
import SpanishLua.Proofs.Pointing
import SpanishLua.Proofs.Brackets
import SpanishLua.Proofs.Runs
import SpanishLua.Proofs.WordPass
import SpanishLua.Proofs.MemberPass
import SpanishLua.Proofs.Pairs
import SpanishLua.Proofs.ArgumentLists
import SpanishLua.Proofs.Discovery
import SpanishLua.Proofs.Spotting
import SpanishLua.Proofs.Resolution
