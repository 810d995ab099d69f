import Tgbot.Basic
import Tgbot.Queue.Ring
import Tgbot.Queue.Table
import Tgbot.Queue.Invariant
import Tgbot.Queue.Refinement
import Tgbot.Queue.Fairness
import Tgbot.Queue.Delivery
import Tgbot.Whitelist
import Tgbot.Webhook
import Tgbot.Webhook.Pool
import Tgbot.Llm.Strip
import Tgbot.Log.File
import Tgbot.Log.Line
import Tgbot.Log.Writer
import Tgbot.Log.Marker
import Tgbot.Log.Reader
import Tgbot.Log.Follow
import Tgbot.Bot.Commands
import Tgbot.Bot.Update
import Tgbot.Bot.Worker
import Tgbot.Config
import Tgbot.Bot.Main
import Tgbot.Bot.Transfer
import Tgbot.Bot.Api
import Tgbot.Llm.Chat
import Tgbot.Bot.Modes
import Tgbot.Cli
