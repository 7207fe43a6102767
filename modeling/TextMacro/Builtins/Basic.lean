import TextMacro.Builtins.Definitions
import TextMacro.Builtins.Numbers
import TextMacro.Builtins.Strings
import TextMacro.Builtins.Surroundings

/-!
# What the builtins do

Each builtin is an action on the session that yields a text. Builtins know nothing of the program
that is being scanned.
-/

namespace TextMacro

open Builtins

/-- Carries out a builtin for a call. -/
def Builtin.perform (code : Builtin) (f : Frame) : Action String :=
  match code with
  | defineString => Builtins.defineString f
  | appendString => Builtins.appendString f
  | copyString => Builtins.copyString f
  | markCreation => Builtins.markCreation f
  | eraseNames => Builtins.eraseNames f
  | segment => Builtins.segment f
  | segmentCount => Builtins.segmentCount f
  | ifDefined => Builtins.ifDefined f
  | listNames => Builtins.listNames f
  | lockNames => Builtins.lockNames f
  | unlockNames => Builtins.unlockNames f
  | traceOn => setTrace true f
  | traceOff => setTrace false f
  | readChar => Builtins.readChar f
  | readChars => Builtins.readChars f
  | skipChars => Builtins.skipChars f
  | readItem => Builtins.readItem f
  | readSegment => Builtins.readSegment f
  | matchStart => Builtins.matchStart f
  | scanFor => Builtins.scanFor f
  | rewind => Builtins.rewind f
  | ifExhausted => Builtins.ifExhausted f
  | takeText => Builtins.takeText f
  | splitCommas => Builtins.splitCommas f
  | splitGroups => Builtins.splitGroups f
  | reverseText => Builtins.reverseText f
  | textLength => Builtins.textLength f
  | defineClass => Builtins.defineClass false f
  | defineNegativeClass => Builtins.defineClass true f
  | eraseClasses => Builtins.eraseClasses f
  | readClass => Builtins.readClass f
  | skipClass => Builtins.skipClass f
  | testClass => Builtins.testClass f
  | listClasses => Builtins.listClasses
  | add => yieldNumber (Builtins.add f)
  | subtract => yieldNumber (Builtins.subtract f)
  | multiply => yieldNumber (Builtins.multiply f)
  | divide => yieldNumber (Builtins.divide f)
  | remainder => yieldNumber (Builtins.remainder f)
  | absolute => yieldNumber (Builtins.absolute f)
  | ifEqual => compareNumbers .eq f
  | ifGreater => compareNumbers .gt f
  | ifLess => compareNumbers .lt f
  | ifSameText => compareTexts .eq f
  | ifTextAfter => compareTexts .gt f
  | ifTextBefore => compareTexts .lt f
  | print => printText f
  | readString => Builtins.readString
  | promptAndRead => Builtins.promptAndRead f
  | setReadEnd => Builtins.setReadEnd f
  | includeFile => Builtins.includeFile f
  | halt => requestHalt f
  | clockTime => Builtins.clockTime
  | runTime => Builtins.runTime
  | renderTime => Builtins.renderTime f
  | countArguments => Builtins.countArguments
  | getArgument => Builtins.getArgument f
  | control => Builtins.control f

end TextMacro
